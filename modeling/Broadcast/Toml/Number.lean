import Broadcast.Toml.Quoted

/-!
# Numbers

Digits may be grouped by single underscores between them. Integers fit 64 bits
with a sign; those without a sign may be hexadecimal, octal or binary. A number
with a fraction or an exponent is a float and must not exceed the largest
double.
-/

namespace Broadcast.Toml

def digit? (base : Nat) (c : Char) : Option Nat :=
  (hexDigit? c).filter fun d => decide (d < base)

def grouped? (base : Nat) : List Char → Option (List Nat)
  | [] => none
  | [c] => (digit? base c).map ([·])
  | c :: '_' :: cs => do
    let d ← digit? base c
    let ds ← grouped? base cs
    some (d :: ds)
  | c :: cs => do
    let d ← digit? base c
    let ds ← grouped? base cs
    some (d :: ds)

def decimal? (cs : List Char) : Option (List Nat) :=
  (grouped? 10 cs).filter fun
    | 0 :: _ :: _ => false
    | _ => true

def ofDigits (base : Nat) (ds : List Nat) : Nat :=
  ds.foldl (fun n d => base * n + d) 0

/-- Integers lie below this number and not below its negative. -/
def int64Limit : Int := 0x8000000000000000

def int64? (i : Int) : Option Int :=
  if -int64Limit ≤ i ∧ i < int64Limit then some i else none

def integer? : List Char → Option Int
  | '0' :: 'x' :: cs => (grouped? 16 cs).bind fun ds => int64? (ofDigits 16 ds)
  | '0' :: 'o' :: cs => (grouped? 8 cs).bind fun ds => int64? (ofDigits 8 ds)
  | '0' :: 'b' :: cs => (grouped? 2 cs).bind fun ds => int64? (ofDigits 2 ds)
  | '+' :: cs => (decimal? cs).bind fun ds => int64? (ofDigits 10 ds)
  | '-' :: cs => (decimal? cs).bind fun ds => int64? (-(ofDigits 10 ds : Int))
  | cs => (decimal? cs).bind fun ds => int64? (ofDigits 10 ds)

/-- Whether `n · 10 ^ e` rounds to no finite double. -/
def tooLarge (n : Nat) (e : Int) : Bool :=
  let size : Int := (Nat.repr n).length + e
  if n = 0 ∨ size < 300 then false
  else if 320 < size then true
  else Nat.pow 2 1024 - Nat.pow 2 970 ≤ n * Nat.pow 10 e.toNat / Nat.pow 10 (-e).toNat

def unsigned (cs : List Char) : List Char :=
  match cs with
  | '+' :: r => r
  | '-' :: r => r
  | r => r

def splitAt? (sep : Char → Bool) (cs : List Char) : List Char × Option (List Char) :=
  match cs.dropWhile fun c => !sep c with
  | [] => (cs, none)
  | _ :: r => (cs.takeWhile fun c => !sep c, some r)

def exponent? (cs : List Char) : Option Int :=
  (grouped? 10 (unsigned cs)).map fun ds =>
    if cs.head? = some '-' then -(ofDigits 10 ds : Int) else ofDigits 10 ds

def isFloat (cs : List Char) : Bool :=
  let (mantissa, exponent) := splitAt? (fun c => c = 'e' || c = 'E') (unsigned cs)
  let (whole, fraction) := splitAt? (· = '.') mantissa
  let parts : Option (List Nat × List Nat × Int) := do
    let ds ← decimal? whole
    let fs ← match fraction with
      | some f => grouped? 10 f
      | none => some []
    let e ← match exponent with
      | some e => exponent? e
      | none => some 0
    some (ds, fs, e)
  match parts with
  | some (ds, fs, e) =>
    (fraction.isSome || exponent.isSome) && !tooLarge (ofDigits 10 (ds ++ fs)) (e - fs.length)
  | none => false

def isSpecialFloat (cs : List Char) : Bool :=
  unsigned cs = ['i', 'n', 'f'] || unsigned cs = ['n', 'a', 'n']

end Broadcast.Toml
