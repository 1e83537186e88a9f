import ByteTape.Source.Basic

/-!
# Folders in memory

The files and directories below a working directory, by their paths. The folder lies in a bare file
system, among the temporary files. Two dots lead to the directory above, also out of the folder, and
in the end to the root; nothing is known of the other temporary files.
-/

namespace ByteTape

/-- A working directory with what it holds. -/
structure Folder where
  files : List (String × List UInt8)
  directories : List String
  deriving DecidableEq, Repr

namespace Folder

/-- Whether a path leads to something inside a directory. -/
def isBelow (directory path : String) : Bool :=
  (directory ++ "/").toList.isPrefixOf path.toList

/-- What stands at a path of plain names. -/
def entry (f : Folder) (names : List String) : Entry :=
  let path := "/".intercalate names
  match f.files.find? fun file => file.1 == path with
  | some (_, bytes) => .file bytes
  | none =>
    if names.isEmpty || f.directories.contains path || f.directories.any (isBelow path) ||
        f.files.any fun file => isBelow path file.1 then
      .directory
    else .missing

/-- The most bytes of a name. -/
def maxNameSize : Nat := 255

/-- The most bytes of a path. -/
def maxPathSize : Nat := 4095

/-- What is found under a name in a directory that does not hold it. -/
def absent (name : String) : Entry :=
  if maxNameSize < name.utf8ByteSize then .nameTooLong else .missing

/-- The root of a file system with what every system has in it. -/
def systemRoot : Folder where
  files := [("dev/null", [])]
  directories := ["bin", "etc", "home", "lib", "opt", "proc", "root", "sys", "tmp", "usr", "var"]

/-- Follow the names of a path from the root, which is the directory above itself. -/
def followRoot : (inside : List String) → List String → Entry
  | inside, [] => systemRoot.entry inside
  | inside, name :: rest =>
    if systemRoot.entry inside ≠ .directory then .missing
    else if name = ".." then followRoot inside.dropLast rest
    else if name.utf8ByteSize ≤ maxNameSize then followRoot (inside ++ [name]) rest
    else .nameTooLong

/-- How many levels a folder lies below the root. -/
def level : Nat := 2

/-- Follow the names of a path from inside the folder, or from `above` levels over it, below the
root. -/
def follow (f : Folder) : (above : Nat) → (inside : List String) → List String → Entry
  | 0, inside, [] => f.entry inside
  | _ + 1, _, [] => .directory
  | above, inside, name :: rest =>
    if above = 0 ∧ f.entry inside ≠ .directory then .missing
    else if name = ".." then
      if !inside.isEmpty then follow f above inside.dropLast rest
      else if above + 1 < level then follow f (above + 1) [] rest
      else followRoot [] rest
    else if above = 0 ∧ name.utf8ByteSize ≤ maxNameSize then follow f 0 (inside ++ [name]) rest
    else absent name

/-- What stands at a path. No name holds the character of number zero. -/
def lookup (f : Folder) (path : String) : Entry :=
  if path.toList.contains (Char.ofNat 0) then .missing
  else if maxPathSize < path.utf8ByteSize then .nameTooLong
  else if Source.root path = "" then f.follow 0 [] (Source.components path)
  else followRoot [] (Source.components path)

end Folder

end ByteTape
