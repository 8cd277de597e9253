/-!
# Files

Files are read by their names, and a file that cannot be read is refused with a reason.
`Files.ofTree` gives the files of a directory tree that is held in memory, by the usual rules for
paths: the parts of a name are followed one after the other, each in the directory reached so far.
-/

set_option autoImplicit false

namespace Drawscript

/-- Why a file cannot be read. -/
inductive FileError where
  | missing
  | notDirectory
  | isDirectory
  | nameTooLong
  | other (message : String)
deriving Repr, DecidableEq

/-- The wording of the reason. -/
def FileError.message : FileError → String
  | missing => "No such file or directory (os error 2)"
  | notDirectory => "Not a directory (os error 20)"
  | isDirectory => "Is a directory (os error 21)"
  | nameTooLong => "File name too long (os error 36)"
  | other message => message

/-- The contents of files by their names. -/
abbrev Files := String → Except FileError String

namespace Files

/-- The parts of a path that lead somewhere. -/
def parts (path : String) : List String :=
  ((path.toList.splitOnP (· == '/')).map String.ofList).filter fun part =>
    part != "" && part != "."

/-- The longest name of a file in bytes. -/
def maxName : Nat := 255

/-- The longest path in bytes. -/
def maxPath : Nat := 4095

/-- Follow the parts of a path from a directory of a tree, given by its own parts, or from outside the
tree, where only directories are known. -/
def follow (tree : List (List String × String)) :
    Option (List String) → List String → Except FileError String
  | _, [] => .error .isDirectory
  | place, part :: rest =>
    if part = "" ∨ part = "." then follow tree place rest
    else if part = ".." then
      match place with
      | none | some [] => follow tree none rest
      | some path => follow tree (some path.dropLast) rest
    else if maxName < part.utf8ByteSize then .error .nameTooLong
    else
      match place with
      | none => .error .missing
      | some path =>
        let path := path ++ [part]
        match tree.lookup path with
        | some text => if rest.isEmpty then .ok text else .error .notDirectory
        | none =>
          if tree.any fun (file, _) => path.isPrefixOf file then follow tree (some path) rest
          else .error .missing

/-- The files of a directory tree, given by their paths. -/
def ofTree (contents : List (String × String)) : Files := fun name =>
  let tree := contents.map fun (path, text) => (parts path, text)
  if name = "" then .error .missing
  else if maxPath < name.utf8ByteSize then .error .nameTooLong
  else
    let start := if name.toList.head? = some '/' then none else some []
    follow tree start ((name.toList.splitOnP (· == '/')).map String.ofList)

end Files

end Drawscript
