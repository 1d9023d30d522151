/-!
# Bytes read as text

Bytes that encode no character are shown as one replacement character for each
longest run that could have begun one.
-/

namespace Broadcast

/-- What the bytes read so far announce. -/
inductive Lead where
  | none
  /-- `left` more bytes, the next of them between `low` and `high`; `code` is what they add to. -/
  | more (left : Nat) (low high : UInt8) (code : Nat)

namespace Lead

def of? (b : UInt8) : Option Lead :=
  if 0xC2 ≤ b ∧ b ≤ 0xDF then some (.more 1 0x80 0xBF (b.toNat % 32))
  else if b = 0xE0 then some (.more 2 0xA0 0xBF 0)
  else if b = 0xED then some (.more 2 0x80 0x9F 13)
  else if 0xE1 ≤ b ∧ b ≤ 0xEF then some (.more 2 0x80 0xBF (b.toNat % 16))
  else if b = 0xF0 then some (.more 3 0x90 0xBF 0)
  else if 0xF1 ≤ b ∧ b ≤ 0xF3 then some (.more 3 0x80 0xBF (b.toNat % 8))
  else if b = 0xF4 then some (.more 3 0x80 0x8F 4)
  else Option.none

end Lead

def replacement : Char := '\ufffd'

def firstByte (b : UInt8) : List Char × Lead :=
  if b < 0x80 then ([Char.ofNat b.toNat], .none)
  else match Lead.of? b with
    | some lead => ([], lead)
    | none => ([replacement], .none)

def readChars : Lead → List UInt8 → List Char
  | .none, [] => []
  | .more .., [] => [replacement]
  | .none, b :: bs => (firstByte b).1 ++ readChars (firstByte b).2 bs
  | .more left low high code, b :: bs =>
    if low ≤ b ∧ b ≤ high then
      let code := code * 64 + b.toNat % 64
      if left = 1 then Char.ofNat code :: readChars .none bs
      else readChars (.more (left - 1) 0x80 0xBF code) bs
    else replacement :: (firstByte b).1 ++ readChars (firstByte b).2 bs

/-- The text that bytes show, whatever they are. -/
def shownText (bytes : List UInt8) : String :=
  String.ofList (readChars .none bytes)

end Broadcast
