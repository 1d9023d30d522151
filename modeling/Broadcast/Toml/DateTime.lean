import Broadcast.Toml.Number

/-!
# Dates and times

A date, a time, or a date and a time with an offset from universal time if one
is given. The seconds of a time may be left out; a minute may have a leap
second.
-/

namespace Broadcast.Toml

def two? (low high : Nat) : List Char → Option (Nat × List Char)
  | a :: b :: cs => do
    let n := 10 * (← digit? 10 a) + (← digit? 10 b)
    if low ≤ n ∧ n ≤ high then some (n, cs) else none
  | _ => none

def expect (c : Char) : List Char → Option (List Char)
  | d :: cs => if d = c then some cs else none
  | [] => none

def isLeap (year : Nat) : Bool :=
  year % 4 = 0 && (year % 100 ≠ 0 || year % 400 = 0)

def daysIn (year month : Nat) : Nat :=
  if month = 2 then if isLeap year then 29 else 28
  else if month = 4 ∨ month = 6 ∨ month = 9 ∨ month = 11 then 30
  else 31

/-- A date at the front of the text; the answer is what stands behind it. -/
def date? (cs : List Char) : Option (List Char) := do
  let (century, cs) ← two? 0 99 cs
  let (year, cs) ← two? 0 99 cs
  let cs ← expect '-' cs
  let (month, cs) ← two? 1 12 cs
  let cs ← expect '-' cs
  let (_, cs) ← two? 1 (daysIn (100 * century + year) month) cs
  some cs

def isDigit (c : Char) : Bool := (digit? 10 c).isSome

def decimals? : List Char → Option (List Char)
  | '.' :: cs => if (cs.head?.any isDigit) then some (cs.dropWhile isDigit) else none
  | cs => some cs

def time? (cs : List Char) : Option (List Char) := do
  let (_, cs) ← two? 0 23 cs
  let cs ← expect ':' cs
  let (_, cs) ← two? 0 59 cs
  match cs with
  | ':' :: cs => do
    let (_, cs) ← two? 0 60 cs
    decimals? cs
  | cs => some cs

def offset? : List Char → Option (List Char)
  | [] => some []
  | c :: cs =>
    if c = 'Z' ∨ c = 'z' then some cs
    else if c = '+' ∨ c = '-' then do
      let (_, cs) ← two? 0 23 cs
      let cs ← expect ':' cs
      let (_, cs) ← two? 0 59 cs
      some cs
    else none

def isDateTime (cs : List Char) : Bool :=
  match date? cs with
  | some [] => true
  | some (c :: r) =>
    (c = 'T' || c = 't' || c = ' ') && ((time? r).bind offset?) == some []
  | none => time? cs == some []

end Broadcast.Toml
