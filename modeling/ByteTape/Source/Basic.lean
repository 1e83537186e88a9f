import ByteTape.Program
import ByteTape.Text.Quoted
import ByteTape.Text.Utf8

/-!
# Source files

Finding a source file and reading its text. What stands at a path is asked of a lookup function, so
that a file system and a folder in memory serve alike.
-/

namespace ByteTape

/-- What stands at a path. -/
inductive Entry where
  | missing
  | directory
  | nameTooLong
  | file (bytes : List UInt8)
  deriving DecidableEq, Repr

/-- Why a source cannot be read. The path of one that is not found is given as typed, and others in
normal form. -/
inductive SourceError where
  | notFound (path : String)
  | isDirectory (path : String)
  | nameTooLong (path : String)
  deriving DecidableEq, Repr

def SourceError.message : SourceError → String
  | notFound path => "Source file not found: " ++ path
  | isDirectory path => "[Errno 21] Is a directory: " ++ Text.quote path
  | nameTooLong path => "[Errno 36] File name too long: " ++ Text.quote path

namespace Source

/-- The names in a path, without empty ones and single dots. -/
def components (path : String) : List String :=
  (path.splitOn "/").filter fun name => name ≠ "" ∧ name ≠ "."

/-- What an absolute path starts with. Exactly two slashes are kept as they are. -/
def root (path : String) : String :=
  match (path.toList.takeWhile (· == '/')).length with
  | 0 => ""
  | 2 => "//"
  | _ => "/"

/-- The normal form of a path; an empty one is the current directory. -/
def normalPath (path : String) : String :=
  let normal := root path ++ "/".intercalate (components path)
  if normal.isEmpty then "." else normal

/-- Read the text of a source file. Bytes that are no UTF-8 are replaced and never refused. -/
def read (lookup : String → Entry) (path : String) : Except SourceError String :=
  match lookup (normalPath path) with
  | .missing => .error (.notFound path)
  | .directory => .error (.isDirectory (normalPath path))
  | .nameTooLong => .error (.nameTooLong (normalPath path))
  | .file bytes => .ok (String.ofList (Text.decodeUtf8 bytes))

end Source

end ByteTape
