/-!
# Shortest decimals

A binary fraction `m · 2 ^ q` stands for all reals that round to it. Its text is
the decimal with the fewest digits among them, and of two such the nearer one.
A grid of decimals `c · 10 ^ k` meets that interval exactly when one of the two
grid points around the fraction does, so only those are tried, from coarse
grids to fine ones.
-/

namespace Broadcast

structure Decimal where
  digits : Nat
  exponent : Int
  deriving DecidableEq, Repr

/-- A positive binary fraction `m · 2 ^ q`. `narrow` says that the next smaller
one is only half as far away as the next larger one. -/
structure Binary where
  m : Nat
  q : Int
  narrow : Bool
  deriving DecidableEq, Repr

namespace Binary

/-- `a · 2 ^ (q - 2)` on the grid of step `10 ^ k`, as numerator and denominator. -/
def scaled (x : Binary) (k : Int) (a : Nat) : Nat × Nat :=
  (a * Nat.pow 2 (x.q - 2).toNat * Nat.pow 10 (-k).toNat, Nat.pow 2 (2 - x.q).toNat * Nat.pow 10 k.toNat)

/-- Whether `c · 10 ^ k` rounds to `x`; the ends of the interval belong to even fractions. -/
def covers (x : Binary) (k : Int) (c : Nat) : Bool :=
  let (low, den) := x.scaled k (4 * x.m - if x.narrow then 1 else 2)
  let (high, _) := x.scaled k (4 * x.m + 2)
  if x.m % 2 = 0 then low ≤ c * den && c * den ≤ high else low < c * den && c * den < high

/-- The grid point of step `10 ^ k` that rounds to `x`, the nearer one if there are two. -/
def onGrid? (x : Binary) (k : Int) : Option Nat :=
  let (num, den) := x.scaled k (4 * x.m)
  let c := num / den
  match x.covers k c, x.covers k (c + 1) with
  | true, true => some (if 2 * (num - c * den) ≤ den then c else c + 1)
  | true, false => some c
  | false, true => some (c + 1)
  | false, false => none

def firstGrid (x : Binary) : Nat → Int → Decimal
  | 0, k => ⟨((x.onGrid? k).getD 0), k⟩
  | fuel + 1, k =>
    match x.onGrid? k with
    | some c => ⟨c, k⟩
    | none => firstGrid x fuel (k - 1)

def topGrid (x : Binary) : Int :=
  ((Nat.log2 x.m + 1 : Int) + x.q) * 30103 / 100000 + 1

def shortest (x : Binary) : Decimal :=
  x.firstGrid 20 x.topGrid

end Binary

def Decimal.positional (d : Decimal) : String :=
  if 0 ≤ d.exponent then
    Nat.repr (d.digits * Nat.pow 10 d.exponent.toNat) ++ ".0"
  else
    let places := (-d.exponent).toNat
    let whole := d.digits / Nat.pow 10 places
    let part := Nat.repr (d.digits % Nat.pow 10 places)
    Nat.repr whole ++ "." ++ String.ofList (List.replicate (places - part.length) '0') ++ part

/-- The fraction that the lower 63 bits of a double stand for, when it is finite and not zero. -/
def Binary.ofBits? (bits : Nat) : Option Binary :=
  let mantissa : Nat := bits % 0x10000000000000
  let exponent : Nat := bits / 0x10000000000000 % 0x800
  if exponent = 2047 ∨ (exponent = 0 ∧ mantissa = 0) then none
  else if exponent = 0 then some ⟨mantissa, -1074, false⟩
  else some ⟨0x10000000000000 + mantissa, exponent - 1075, mantissa = 0 && 1 < exponent⟩

def decimalText (x : Float) : String :=
  let bits := x.toBits.toNat
  let sign := if 0x8000000000000000 ≤ bits then "-" else ""
  match Binary.ofBits? (bits % 0x8000000000000000) with
  | some b => sign ++ b.shortest.positional
  | none => if x.isNaN then "NaN" else if x.isInf then sign ++ "inf" else sign ++ "0.0"

end Broadcast
