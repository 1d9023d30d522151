import Broadcast.Toml.Blank

/-!
# Quoted strings

A string stands between double quotes, where a backslash starts an escape, or
between single quotes, where every character stands for itself; three quotes
open and close a string of several lines, which may end in up to two quotes of
its own. Writing chooses the plainest form that can hold the string.
-/

namespace Broadcast.Toml

/-! ## Reading -/

def hexDigit? (c : Char) : Option Nat :=
  if '0' ≤ c ∧ c ≤ '9' then some (c.toNat - '0'.toNat)
  else if 'a' ≤ c ∧ c ≤ 'f' then some (c.toNat - 'a'.toNat + 10)
  else if 'A' ≤ c ∧ c ≤ 'F' then some (c.toNat - 'A'.toNat + 10)
  else none

def escapeOf? : Char → Option Char
  | 'b' => some '\x08'
  | 't' => some '\t'
  | 'n' => some '\n'
  | 'f' => some '\x0c'
  | 'r' => some '\r'
  | 'e' => some '\x1b'
  | '"' => some '"'
  | '\\' => some '\\'
  | _ => none

def codeLength? : Char → Option Nat
  | 'x' => some 2
  | 'u' => some 4
  | 'U' => some 8
  | _ => none

def charOf? (code : Nat) : Option Char :=
  if h : code.isValidChar then some (Char.ofNatAux code h) else none

/-- What a backslash has announced. -/
inductive Pending where
  | none
  | escape
  | code (left value : Nat)
  /-- A line is continued: line ends and blanks are dropped, and one line end is still `owed`. -/
  | fold (owed : Bool)
  deriving DecidableEq, Repr

inductive Move where
  | emit (c : Char) (next : Pending)
  | hold (next : Pending)
  | close
  | fail
  deriving DecidableEq, Repr

def Pending.move : Pending → Char → Move
  | .escape, c =>
    match escapeOf? c, codeLength? c with
    | some d, _ => .emit d .none
    | _, some n => .hold (.code n 0)
    | _, _ => .fail
  | .code left value, c =>
    match hexDigit? c with
    | some d =>
      if left = 1 then
        match charOf? (16 * value + d) with
        | some c => .emit c .none
        | _ => .fail
      else .hold (.code (left - 1) (16 * value + d))
    | _ => .fail
  | _, _ => .fail

def lineMove (p : Pending) (c : Char) : Move :=
  match p with
  | .none =>
    if c = '"' then .close
    else if c = '\\' then .hold .escape
    else if isPlain c then .emit c .none
    else .fail
  | p => p.move c

def pairAhead (quote : Char) : List Char → Bool
  | a :: b :: _ => a = quote && b = quote
  | _ => false

def blockMove (p : Pending) (c : Char) (rest : List Char) : Move :=
  let lineEnd := c = '\n' || (c = '\r' && startsLine rest)
  let plain : Move :=
    if c = '"' then if pairAhead '"' rest then .close else .emit c .none
    else if c = '\\' then .hold .escape
    else if lineEnd || isPlain c then .emit c .none
    else .fail
  match p with
  | .none => plain
  | .escape =>
    if c = '\n' then .hold (.fold false)
    else if lineEnd || isBlank c then .hold (.fold true)
    else p.move c
  | .fold owed =>
    if c = '\n' then .hold (.fold false)
    else if lineEnd || isBlank c then .hold (.fold owed)
    else if owed then .fail
    else plain
  | p => p.move c

def lineBody (p : Pending) : List Char → Option (List Char × List Char)
  | [] => none
  | c :: cs =>
    match lineMove p c with
    | .emit d next => (lineBody next cs).map (keep d)
    | .hold next => lineBody next cs
    | .close => some ([], cs)
    | .fail => none

/-- Behind the first of the closing quotes: up to two more belong to the string. -/
def closing (quote : Char) (cs : List Char) : List Char × List Char :=
  match cs.drop 2 with
  | a :: b :: r => if a = quote then if b = quote then ([a, b], r) else ([a], b :: r) else ([], a :: b :: r)
  | [a] => if a = quote then ([a], []) else ([], [a])
  | [] => ([], [])

def blockBody (p : Pending) : List Char → Option (List Char × List Char)
  | [] => none
  | c :: cs =>
    match blockMove p c cs with
    | .emit d next => (blockBody next cs).map (keep d)
    | .hold next => blockBody next cs
    | .close => some (closing '"' cs)
    | .fail => none

def literalLine : List Char → Option (List Char × List Char)
  | [] => none
  | c :: cs =>
    if c = '\'' then some ([], cs)
    else if isPlain c then (literalLine cs).map (keep c)
    else none

def literalBlock : List Char → Option (List Char × List Char)
  | [] => none
  | c :: cs =>
    if c = '\'' && pairAhead '\'' cs then some (closing '\'' cs)
    else if c = '\n' || (c = '\r' && startsLine cs) || isPlain c then (literalBlock cs).map (keep c)
    else none

def skipLineEnd : List Char → List Char
  | '\n' :: cs => cs
  | '\r' :: '\n' :: cs => cs
  | cs => cs

def string? : List Char → Option (List Char × List Char)
  | '"' :: cs =>
    if pairAhead '"' cs then blockBody .none (skipLineEnd (cs.drop 2)) else lineBody .none cs
  | '\'' :: cs =>
    if pairAhead '\'' cs then literalBlock (skipLineEnd (cs.drop 2)) else literalLine cs
  | _ => none

def lineString? : List Char → Option (List Char × List Char)
  | '"' :: cs => if pairAhead '"' cs then none else lineBody .none cs
  | '\'' :: cs => if pairAhead '\'' cs then none else literalLine cs
  | _ => none

/-! ## Writing -/

/-- The characters that only an escape can write, a line feed apart. -/
def isControl (c : Char) : Bool :=
  (c.toNat < 0x20 && c != '\t' && c != '\n') || c.toNat = 0x7F

/-- Whether `quote` stands more than twice in a row, `run` of them before the text. -/
def crowded (quote : Char) (run : Nat) : List Char → Bool
  | [] => false
  | c :: cs => if c = quote then run = 2 || crowded quote (run + 1) cs else crowded quote 0 cs

inductive Style where
  | line
  | literalLine
  | block
  | literalBlock
  deriving DecidableEq, Repr

def Style.of (cs : List Char) : Style :=
  let calm := !cs.any isControl
  if calm && !cs.contains '\\' && !cs.contains '"' && !cs.contains '\n' then .line
  else if calm && !cs.contains '\'' && !cs.contains '\n' then .literalLine
  else if calm && !cs.contains '\\' && !crowded '"' 0 cs then .block
  else if calm && !crowded '\'' 0 cs then .literalBlock
  else if cs.contains '\n' then .block
  else .line

def hexDigits (n : Nat) : List Char :=
  let digit (d : Nat) : Char := if d < 10 then Char.ofNat (d + '0'.toNat) else Char.ofNat (d - 10 + 'A'.toNat)
  [digit (n / 4096 % 16), digit (n / 256 % 16), digit (n / 16 % 16), digit (n % 16)]

def escapedChar (several : Bool) (c : Char) : List Char :=
  match c with
  | '\x08' => ['\\', 'b']
  | '\t' => ['\\', 't']
  | '\x0c' => ['\\', 'f']
  | '\r' => ['\\', 'r']
  | '\\' => ['\\', '\\']
  | '\n' => if several then ['\n'] else ['\\', 'n']
  | c => if isControl c then '\\' :: 'u' :: hexDigits c.toNat else [c]

/-- The body between double quotes, `run` quotes standing before it. On several
lines only the third quote of a run needs an escape. -/
def escaped (several : Bool) (run : Nat) : List Char → List Char
  | [] => []
  | c :: cs =>
    if c = '"' then
      if several && run < 2 then c :: escaped several (run + 1) cs
      else '\\' :: c :: escaped several 0 cs
    else escapedChar several c ++ escaped several 0 cs

def Style.written (cs : List Char) : Style → List Char
  | .line => '"' :: escaped false 0 cs ++ ['"']
  | .literalLine => '\'' :: cs ++ ['\'']
  | .block => '"' :: '"' :: '"' :: (opening cs ++ escaped true 0 cs) ++ ['"', '"', '"']
  | .literalBlock => '\'' :: '\'' :: '\'' :: (opening cs ++ cs) ++ ['\'', '\'', '\'']
where
  /-- A string with a line feed starts on a line of its own. -/
  opening (cs : List Char) : List Char := if cs.contains '\n' then ['\n'] else []

def quoted (s : String) : String :=
  String.ofList ((Style.of s.toList).written s.toList)

end Broadcast.Toml
