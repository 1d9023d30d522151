import Broadcast.Files.Fault
import Broadcast.Text.Fields

/-!
# Paths

A path is a text of steps between slashes. For going through the files every
step counts, also `.` and `..`; for naming things beside a path its parts count,
where a `.` says nothing unless it comes first.
-/

namespace Broadcast.Path

def isAbsolute (path : String) : Bool := path.toList.head? = some '/'

/-- Whether the path ends in a slash, so that only a directory can be meant. -/
def isOpen (path : String) : Bool := path.toList.getLast? = some '/'

def steps (path : String) : List String :=
  ((fields '/' path.toList).map String.ofList).filter fun s => s != ""

def check (path : String) : Except Fault Unit :=
  if path.toList.contains '\x00' then .error .nulInName
  else if path = "" then .error .notFound
  else if 4096 ≤ path.utf8ByteSize then .error .nameTooLong
  else .ok ()

def parts (path : String) : List String :=
  match steps path with
  | [] => []
  | s :: ss => (if s = "." && isAbsolute path then [] else [s]) ++ ss.filter fun s => s != "."

def ofParts (absolute : Bool) (parts : List String) : String :=
  (if absolute then "/" else "") ++ String.intercalate "/" parts

/-- The directory a path is in; the empty path is the working directory. -/
def parent? (path : String) : Option String :=
  if (parts path).isEmpty then none else some (ofParts (isAbsolute path) (parts path).dropLast)

def fileName? (path : String) : Option String :=
  (parts path).getLast?.filter fun s => s != "." && s != ".."

/-- The text before the last dot of a name, if the name has a dot behind its first character. -/
def stem? (name : String) : Option String :=
  let before := (name.toList.reverse.dropWhile fun c => c != '.').drop 1
  if before.isEmpty then none else some (String.ofList before.reverse)

def withExtension (extension path : String) : String :=
  match fileName? path with
  | none => path
  | some name =>
    let stem := (stem? name).getD name
    -- a name such as `..x` leaves no file name behind when its extension goes
    let last := if stem = "." && name.toList.isSuffixOf path.toList then ".." else stem ++ "." ++ extension
    ofParts (isAbsolute path) ((parts path).dropLast ++ [last])

end Broadcast.Path
