/-!
# Named entries

A table maps names to entries and keeps them in the order in which the names first came in. Two
tables are compared through `get?`, so an operation is described by its effect on `get?`.
-/

set_option autoImplicit false

namespace Drawscript

/-- Entries under distinct names, in order of arrival. -/
structure Table (α : Type) where
  entries : List (String × α) := []

namespace Table

variable {α : Type}

/-- The entry under a name. -/
def get? (table : Table α) (name : String) : Option α :=
  table.entries.lookup name

/-- The list with the entry under a name replaced, or added at the end. -/
def insertEntry (name : String) (entry : α) : List (String × α) → List (String × α)
  | [] => [(name, entry)]
  | (other, old) :: rest =>
    if other = name then (name, entry) :: rest else (other, old) :: insertEntry name entry rest

/-- The table with the entry under a name replaced or added. -/
def insert (table : Table α) (name : String) (entry : α) : Table α :=
  ⟨insertEntry name entry table.entries⟩

/-- The table without the entry under a name. -/
def erase (table : Table α) (name : String) : Table α :=
  ⟨table.entries.filter fun (other, _) => other != name⟩

/-- The list with the entry under a name changed. -/
def modifyEntry (name : String) (change : α → α) : List (String × α) → List (String × α)
  | [] => []
  | (other, old) :: rest =>
    if other = name then (other, change old) :: rest
    else (other, old) :: modifyEntry name change rest

/-- The table with the entry under a name changed, if there is one. -/
def modify (table : Table α) (name : String) (change : α → α) : Table α :=
  ⟨modifyEntry name change table.entries⟩

/-- The entries sorted by name. -/
def sorted (table : Table α) : List (String × α) :=
  table.entries.mergeSort fun a b => !decide (b.1 < a.1)

end Table

end Drawscript
