/-!
# Blanks, comments and line ends

The text between the parts of a document. A comment runs to the end of its line
and holds no control character but the tab; a line ends in a line feed, with or
without a carriage return before it.
-/

namespace Broadcast.Toml

def isBlank (c : Char) : Bool := c = ' ' || c = '\t'

/-- What comments and strings may hold as it stands. -/
def isPlain (c : Char) : Bool := c = '\t' || (0x20 ≤ c.toNat && c.toNat ≠ 0x7F)

/-- Text as it is kept: every line end is a line feed. -/
def kept (cs : List Char) : String := String.ofList (cs.filter fun c => c != '\r')

def keep (c : Char) (read : List Char × List Char) : List Char × List Char :=
  (c :: read.1, read.2)

def startsLine : List Char → Bool
  | '\n' :: _ => true
  | _ => false

/-- Blanks, line ends and whole comments, as far as they go. -/
def trivia (inComment : Bool) : List Char → Option (List Char × List Char)
  | [] => some ([], [])
  | c :: cs =>
    if c = '\n' then (trivia false cs).map (keep c)
    else if c = '\r' && startsLine cs then (trivia inComment cs).map (keep c)
    else if inComment then if isPlain c then (trivia true cs).map (keep c) else none
    else if c = '#' then (trivia true cs).map (keep c)
    else if isBlank c then (trivia false cs).map (keep c)
    else some ([], c :: cs)

def blanks (cs : List Char) : List Char × List Char :=
  (cs.takeWhile isBlank, cs.dropWhile isBlank)

/-- The rest of a line up to its end: blanks, or a comment. -/
def remark (inComment : Bool) : List Char → Option (List Char × List Char)
  | [] => some ([], [])
  | c :: cs =>
    if c = '\n' then some ([], cs)
    else if c = '\r' && startsLine cs then remark inComment cs
    else if inComment then if isPlain c then (remark true cs).map (keep c) else none
    else if c = '#' then (remark true cs).map (keep c)
    else if isBlank c then (remark false cs).map (keep c)
    else none

end Broadcast.Toml
