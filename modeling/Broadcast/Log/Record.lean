import Broadcast.Log.Level

/-!
# Log records

A record says what happened, where in the program, and how severe it is. The
log file shows the place and keeps a message from steering a terminal; the short
form does neither.
-/

namespace Broadcast

structure Record where
  level : Level
  target : String
  message : String
  fields : List (String × String) := []
  deriving DecidableEq, Repr

namespace Record

def withFields (r : Record) (message : String) : String :=
  message ++ String.join (r.fields.map fun (name, value) => " " ++ name ++ "=" ++ value)

def text (r : Record) : String :=
  r.level.name ++ " " ++ r.withFields r.message

/-- A character of a message in the log file. Those that a terminal would obey are
written as codes; line feeds, carriage returns and tabs stay. -/
def safeChar (c : Char) : String :=
  match c with
  | '\x07' => "\\x07"
  | '\x08' => "\\x08"
  | '\x0c' => "\\x0c"
  | '\x1b' => "\\x1b"
  | '\x7f' => "\\x7f"
  | c =>
    if 0x80 ≤ c.toNat && c.toNat ≤ 0x9F then "\\u\x7b" ++ String.ofList (Nat.toDigits 16 c.toNat) ++ "\x7d"
    else c.toString

def safe (message : String) : String := String.join (message.toList.map safeChar)

def line (r : Record) : String :=
  r.level.name ++ " " ++ r.target ++ ": " ++ r.withFields (safe r.message)

def isAtLeast (l : Level) (r : Record) : Bool := l.rank ≤ r.level.rank

end Record

end Broadcast
