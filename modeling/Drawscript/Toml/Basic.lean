/-!
# Settings documents

A settings document is a table of named values, written in TOML. Of the values of that format the
ones that settings can have are kept: texts, integers, arrays and tables. Of a value of another kind
only its presence is kept.

Tables come into being in three ways: by a header of their own, on the way to a header below them, or
by a key with dots. The ways do not mix freely, so that no table is written twice; a part of a
document keeps how it came into being while the document is read.
-/

set_option autoImplicit false

namespace Drawscript

/-- A value of a settings document. -/
inductive Toml where
  | string (s : String)
  | integer (n : Int64)
  | array (items : List Toml)
  | table (entries : List (String × Toml))
  /-- A fractional number, a truth value, a date or a time. -/
  | other

namespace Toml

/-- How a table came into being. -/
inductive Origin where
  /-- By a header of its own. -/
  | header
  /-- On the way to the header of a table inside it. -/
  | implied
  /-- By a key with dots. -/
  | dotted
deriving Repr, DecidableEq

/-- A part of a document while it is read: a finished value, or a table that can be added to. -/
inductive Part where
  | value (v : Toml)
  | table (origin : Origin) (entries : List (String × Part))

/-- Named parts of a document. -/
abbrev Parts := List (String × Part)

/-- The parts with the part under a name replaced. -/
def Parts.replace (name : String) (part : Part) (parts : Parts) : Parts :=
  parts.map fun (key, old) => if key = name then (key, part) else (key, old)

/-- The parts with a value put under a key, which has more than one name if it has dots. Nothing may
be there yet, and a table on the way must be one of a key with dots. -/
def Parts.insert (value : Toml) : List String → Parts → Option Parts
  | [], _ => none
  | [name], parts =>
    match parts.lookup name with
    | none => some (parts ++ [(name, .value value)])
    | some _ => none
  | name :: rest, parts =>
    match parts.lookup name with
    | none => (Parts.insert value rest []).map fun inner => parts ++ [(name, .table .dotted inner)]
    | some (.table origin inner) =>
      if origin = .header ∨ (rest.length = 1 ∧ origin = .implied) then none
      else
        (Parts.insert value rest inner).map fun inner =>
          parts.replace name (.table origin inner)
    | some (.value _) => none

/-- The parts with the table of a header, which must not have been written before. -/
def Parts.openTable : List String → Parts → Option Parts
  | [], _ => none
  | [name], parts =>
    match parts.lookup name with
    | none => some (parts ++ [(name, .table .header [])])
    | some (.table .implied inner) => some (parts.replace name (.table .header inner))
    | some _ => none
  | name :: rest, parts =>
    match parts.lookup name with
    | none =>
      (Parts.openTable rest []).map fun inner => parts ++ [(name, .table .implied inner)]
    | some (.table origin inner) =>
      (Parts.openTable rest inner).map fun inner => parts.replace name (.table origin inner)
    | some (.value _) => none

/-- The parts with a change made inside the table of a header. -/
def Parts.change (f : Parts → Option Parts) : List String → Parts → Option Parts
  | [], parts => f parts
  | name :: rest, parts =>
    match parts.lookup name with
    | some (.table origin inner) =>
      (Parts.change f rest inner).map fun inner => parts.replace name (.table origin inner)
    | _ => none

mutual

/-- A part as a value. -/
def Part.toToml : Part → Toml
  | .value v => v
  | .table _ entries => .table (entriesToToml entries)

/-- Named parts as named values. -/
def entriesToToml : List (String × Part) → List (String × Toml)
  | [] => []
  | entry :: rest => entryToToml entry :: entriesToToml rest

/-- A named part as a named value. -/
def entryToToml : String × Part → String × Toml
  | (name, part) => (name, part.toToml)

end

end Toml

end Drawscript
