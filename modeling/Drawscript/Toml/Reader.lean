import Drawscript.Toml.Scalar

/-!
# Reading settings documents

A document is read line by line: a header opens a table, a key with its value adds to the table
opened last, and blank lines and comments are passed over. Keys have at most `maxNesting` names, and
values are nested in each other at most as many levels.
-/

set_option autoImplicit false

namespace Drawscript.Toml

/-- How many names a key may have, and how many levels of arrays and tables a value. -/
def maxNesting : Nat := 79

/-- Spaces and tabs. -/
def isBlank (c : Char) : Bool :=
  c == ' ' || c == '\t'

/-- The text without leading spaces and tabs. -/
def skipBlanks (text : List Char) : List Char :=
  text.dropWhile isBlank

/-- The characters that may stand in comments and texts: all but controls other than the tab. -/
def isVisible (c : Char) : Bool :=
  c == '\t' || (32 ≤ c.toNat && c.toNat != 127)

/-- What follows a line break at the start of a text. -/
def afterBreak? : List Char → Option (List Char)
  | '\n' :: rest => some rest
  | '\r' :: '\n' :: rest => some rest
  | _ => none

/-- What follows the end of a line: spaces, a comment, and a line break or the end of the text. -/
def endOfLine? (text : List Char) : Option (List Char) :=
  let text := skipBlanks text
  let text := if text.head? = some '#' then text.dropWhile isVisible else text
  if text.isEmpty then some [] else afterBreak? text

/-- The text after any spaces, line breaks and comments, the first of which may have begun. -/
def skipGap (inComment : Bool) : List Char → List Char
  | [] => []
  | c :: rest =>
    if c = '\n' then skipGap false rest
    else if c = '\r' ∧ rest.head? = some '\n' then skipGap false rest
    else if inComment then if isVisible c then skipGap true rest else c :: rest
    else if c = '#' then skipGap true rest
    else if isBlank c then skipGap false rest
    else c :: rest

/-! ## Texts -/

/-- The character with the given hexadecimal code. -/
def charOfHex? (digits : List Char) : Option Char :=
  match digits.mapM hexDigit? with
  | some values =>
    let code := values.foldl (fun n d => 16 * n + d) 0
    if code.isValidChar then some (Char.ofNat code) else none
  | none => none

/-- The character that a letter after a backslash stands for. -/
def escaped? (c : Char) : Option Char :=
  match c with
  | 'b' => some (Char.ofNat 8)
  | 't' => some '\t'
  | 'n' => some '\n'
  | 'f' => some (Char.ofNat 12)
  | 'r' => some '\r'
  | '"' => some '"'
  | '\\' => some '\\'
  | _ => none

/-- The escaped character after a backslash, and the number of characters that write it. -/
def escape? : List Char → Option (Char × Nat)
  | [] => none
  | 'u' :: rest =>
    if 4 ≤ rest.length then (charOfHex? (rest.take 4)).map fun c => (c, 5) else none
  | 'U' :: rest =>
    if 8 ≤ rest.length then (charOfHex? (rest.take 8)).map fun c => (c, 9) else none
  | c :: _ => (escaped? c).map fun d => (d, 1)

/-- The contents of a text up to its closing quote, and what follows. The first `skip` characters
belong to an escape and have been taken. -/
def basicString? (skip : Nat) : List Char → Option (List Char × List Char)
  | [] => none
  | c :: rest =>
    match skip with
    | skip + 1 => basicString? skip rest
    | 0 =>
      if c = '"' then some ([], rest)
      else if c = '\\' then
        match escape? rest with
        | some (d, written) =>
          (basicString? written rest).map fun (inner, after) => (d :: inner, after)
        | none => none
      else if isVisible c then
        (basicString? 0 rest).map fun (inner, after) => (c :: inner, after)
      else none

/-- The contents of a text without escapes up to its closing quote, and what follows. -/
def literalString? (text : List Char) : Option (List Char × List Char) :=
  let inner := text.takeWhile fun c => isVisible c && c.toNat != 39
  match text.drop inner.length with
  | [] => none
  | c :: rest => if c.toNat = 39 then some (inner, rest) else none

/-- The contents of a text of several lines up to its three closing quotes, and what follows. The
first `skip` characters have been taken, and while `joining` blanks and line breaks are left out. Up
to two quotes before the closing ones belong to the text, and a line break is kept as a line feed. -/
def longString? (quote : Char) (escapes : Bool) (joining : Bool) (skip : Nat) :
    List Char → Option (List Char × List Char)
  | [] => none
  | c :: rest =>
    match skip with
    | skip + 1 => longString? quote escapes joining skip rest
    | 0 =>
      if joining ∧ (isBlank c ∨ c = '\n' ∨ (c = '\r' ∧ rest.head? = some '\n')) then
        longString? quote escapes true 0 rest
      else if c = quote ∧ rest.take 2 = [quote, quote] then
        let extra := ((rest.drop 2).take 2).takeWhile (· == quote)
        some (extra, rest.drop (2 + extra.length))
      else if c = '\\' ∧ escapes then
        if (afterBreak? (skipBlanks rest)).isSome then longString? quote escapes true 0 rest
        else
          match escape? rest with
          | some (d, written) =>
            (longString? quote escapes false written rest).map fun (inner, after) =>
              (d :: inner, after)
          | none => none
      else if c = '\r' ∧ rest.head? = some '\n' then longString? quote escapes false 0 rest
      else if isVisible c ∨ c = '\n' then
        (longString? quote escapes false 0 rest).map fun (inner, after) => (c :: inner, after)
      else none

/-- A text on one line, if one starts here, and what follows. -/
def shortString? : List Char → Option (List Char × List Char)
  | [] => none
  | c :: rest =>
    if c = '"' then basicString? 0 rest
    else if c.toNat = 39 then literalString? rest
    else none

/-- A text, if one starts here, and what follows. -/
def string? (text : List Char) : Option (List Char × List Char) :=
  match text with
  | [] => none
  | c :: rest =>
    if rest.take 2 = [c, c] ∧ (c = '"' ∨ c.toNat = 39) then
      let inner := rest.drop 2
      longString? c (c = '"') false 0 ((afterBreak? inner).getD inner)
    else shortString? text

/-! ## Keys -/

/-- The characters of a name that is not quoted. -/
def isBare (c : Char) : Bool :=
  c.isAlphanum || c == '_' || c == '-'

/-- A name of a key, and what follows. -/
def name? (text : List Char) : Option (String × List Char) :=
  let bare := text.takeWhile isBare
  if bare.isEmpty then
    (shortString? text).map fun (inner, after) => (String.ofList inner, after)
  else some (String.ofList bare, text.drop bare.length)

/-- The names of a key, at most the given number with dots between them, and what follows. -/
def key? : Nat → List Char → Option (List String × List Char)
  | 0, _ => none
  | names + 1, text =>
    match name? (skipBlanks text) with
    | none => none
    | some (name, rest) =>
      match skipBlanks rest with
      | '.' :: after => (key? names after).map fun (others, after) => (name :: others, after)
      | after => some ([name], after)

/-! ## Values -/

/-- The items of an array up to its closing bracket, and what follows. An array has at most as many
items as its text has characters. -/
def items? (read : List Char → Option (Toml × List Char)) :
    Nat → List Char → Option (List Toml × List Char)
  | 0, _ => none
  | count + 1, text =>
    match skipGap false text with
    | ']' :: after => some ([], after)
    | text =>
      match read text with
      | none => none
      | some (item, rest) =>
        match skipGap false rest with
        | ',' :: rest =>
          (items? read count rest).map fun (items, after) => (item :: items, after)
        | ']' :: after => some ([item], after)
        | _ => none

/-- The entries of a table in braces up to its closing brace, and what follows. A table has at most
as many entries as its text has characters. -/
def entries? (read : List Char → Option (Toml × List Char)) :
    Nat → Parts → List Char → Option (Parts × List Char)
  | 0, _, _ => none
  | count + 1, parts, text =>
    match key? maxNesting text with
    | some (key, '=' :: rest) =>
      match read (skipBlanks rest) with
      | none => none
      | some (value, rest) =>
        match parts.insert value key with
        | none => none
        | some parts =>
          match skipBlanks rest with
          | ',' :: rest => entries? read count parts rest
          | '\x7d' :: after => some (parts, after)
          | _ => none
    | _ => none

/-- A text or a scalar, and what follows. -/
def plain? (text : List Char) : Option (Toml × List Char) :=
  match string? text with
  | some (inner, after) => some (.string (String.ofList inner), after)
  | none => scalar? text

/-- A value, and what follows. Arrays and tables in braces are nested in each other at most the given
number of levels. -/
def value? : Nat → List Char → Option (Toml × List Char)
  | 0, text => plain? text
  | levels + 1, text =>
    match text with
    | '[' :: rest =>
      (items? (value? levels) text.length rest).map fun (items, after) => (.array items, after)
    | '\x7b' :: rest =>
      match skipBlanks rest with
      | '\x7d' :: after => some (.table [], after)
      | rest =>
        (entries? (value? levels) text.length [] rest).map fun (parts, after) =>
          (.table (entriesToToml parts), after)
    | _ => plain? text

/-! ## Documents -/

/-- What the line at the start of a text says. -/
inductive Statement where
  | blank
  | header (path : List String)
  | entry (key : List String) (value : Toml)

/-- The first line of a text, and the lines after it. -/
def statement? (text : List Char) : Option (Statement × List Char) :=
  let text := skipBlanks text
  match endOfLine? text with
  | some rest => some (.blank, rest)
  | none =>
    match text with
    | '[' :: inner =>
      match key? maxNesting inner with
      | some (path, ']' :: rest) => (endOfLine? rest).map fun rest => (.header path, rest)
      | _ => none
    | _ =>
      match key? maxNesting text with
      | some (key, '=' :: rest) =>
        match value? maxNesting (skipBlanks rest) with
        | some (value, rest) => (endOfLine? rest).map fun rest => (.entry key value, rest)
        | none => none
      | _ => none

/-- The document with the lines of a text added to the table of the header read last. A text has at
most as many lines as characters. -/
def lines? : Nat → List String → Parts → List Char → Option Parts
  | 0, _, parts, _ => some parts
  | count + 1, path, parts, text =>
    if text.isEmpty then some parts
    else
      match statement? text with
      | none => none
      | some (.blank, rest) => lines? count path parts rest
      | some (.header path, rest) =>
        match parts.openTable path with
        | some parts => lines? count path parts rest
        | none => none
      | some (.entry key value, rest) =>
        match parts.change (Parts.insert value key) path with
        | some parts => lines? count path parts rest
        | none => none

/-- The entries of a settings document. A byte order mark in front does not matter. -/
def parse? (source : String) : Option (List (String × Toml)) :=
  let text := source.toList
  let text := if text.head? = some (Char.ofNat 0xFEFF) then text.tail else text
  (lines? text.length [] [] text).map entriesToToml

end Drawscript.Toml
