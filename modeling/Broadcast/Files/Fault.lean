/-!
# Faults

What the machine answers when it cannot do something with a file. Most faults
are known by a number, which is shown behind their description.
-/

namespace Broadcast

inductive Fault where
  | system (code : Nat)
  | nulInName
  | notText
  | other (description : String)
  deriving DecidableEq, Repr

namespace Fault

abbrev notFound : Fault := .system 2
abbrev busy : Fault := .system 16
abbrev alreadyExists : Fault := .system 17
abbrev notADirectory : Fault := .system 20
abbrev isADirectory : Fault := .system 21
abbrev invalidArgument : Fault := .system 22
abbrev nameTooLong : Fault := .system 36

def descriptions : List String :=
  [ "Operation not permitted", "No such file or directory", "No such process", "Interrupted system call",
    "Input/output error", "No such device or address", "Argument list too long", "Exec format error",
    "Bad file descriptor", "No child processes", "Resource temporarily unavailable", "Cannot allocate memory",
    "Permission denied", "Bad address", "Block device required", "Device or resource busy", "File exists",
    "Invalid cross-device link", "No such device", "Not a directory", "Is a directory", "Invalid argument",
    "Too many open files in system", "Too many open files", "Inappropriate ioctl for device", "Text file busy",
    "File too large", "No space left on device", "Illegal seek", "Read-only file system", "Too many links",
    "Broken pipe", "Numerical argument out of domain", "Numerical result out of range",
    "Resource deadlock avoided", "File name too long", "No locks available", "Function not implemented",
    "Directory not empty", "Too many levels of symbolic links" ]

def description : Fault → String
  | system 0 => "Success"
  | system (n + 1) => (descriptions[n]?).getD ("Unknown error " ++ Nat.repr (n + 1))
  | nulInName => "file name contained an unexpected NUL byte"
  | notText => "stream did not contain valid UTF-8"
  | other description => description

def text (f : Fault) : String :=
  match f with
  | system code => f.description ++ " (os error " ++ Nat.repr code ++ ")"
  | _ => f.description

end Fault

end Broadcast
