import Broadcast.Settings.Basic
import Broadcast.Toml.Node

/-!
# The settings a document means

A section that is missing has its default, and so has a key that is missing in
a section; keys that nobody asks for are ignored. A section may also be an array
of its settings in order. A value of the wrong kind makes the whole document
unfit.
-/

namespace Broadcast

open Toml

inductive Fields where
  | named (entries : List (String × Value))
  | listed (items : List Value)

namespace Fields

def get? (fs : Fields) (name : String) (place : Nat) : Option Value :=
  match fs with
  | named es => (es.find? fun e => e.1 == name).map (·.2)
  | listed items => items[place]?

/-- A setting that may be missing, but must fit when it is there. -/
def read {α : Type} (fs : Fields) (name : String) (place : Nat) (fits : Value → Option α) (default : α) : Option α :=
  match fs.get? name place with
  | none => some default
  | some v => fits v

end Fields

namespace Toml.Value

/-- A date holds no setting, but it may stand for a section without any. -/
def fields? : Value → Option Fields
  | table es => some (.named es)
  | array items => some (.listed items)
  | scalar (.dateTime _) => some (.named [])
  | scalar _ => none

def text? : Value → Option String
  | scalar (.string s) => some s
  | _ => none

def word32? : Value → Option UInt32
  | scalar (.integer i) => if 0 ≤ i ∧ i < 0x100000000 then some i.toNat.toUInt32 else none
  | _ => none

def flag? : Value → Option Bool
  | scalar (.boolean b) => some b
  | _ => none

/-- A level is a word, or a table with the word as its only key and nothing in it. -/
def level? : Value → Option Level
  | scalar (.string s) => Level.ofWord? s
  | table [(word, table [])] => Level.ofWord? word
  | table [(word, array [])] => Level.ofWord? word
  | _ => none

theorem text?_eq_some_iff {v : Value} {s : String} : v.text? = some s ↔ v = .scalar (.string s) := by
  constructor
  · intro h
    unfold text? at h
    split at h
    · cases h; rfl
    · cases h
  · rintro rfl; rfl

theorem word32?_eq_some_iff {v : Value} {n : UInt32} : v.word32? = some n ↔ v = .scalar (.integer n.toNat) := by
  constructor
  · intro h
    unfold word32? at h
    split at h
    · rename_i i
      split at h
      · rename_i hi
        cases h
        have hlt : i.toNat < 2 ^ 32 := by omega
        have hn : i.toNat.toUInt32.toNat = i.toNat := UInt32.toNat_ofNat_of_lt' hlt
        rw [hn, Int.toNat_of_nonneg hi.1]
      · cases h
    · cases h
  · rintro rfl
    have hlt : n.toNat < 2 ^ 32 := n.toNat_lt
    have hi : (0 : Int) ≤ n.toNat ∧ (n.toNat : Int) < 0x100000000 := ⟨by omega, by omega⟩
    simp only [word32?, if_pos hi, Int.toNat_natCast]
    exact congrArg some (UInt32.ofNat_toNat)

theorem flag?_eq_some_iff {v : Value} {b : Bool} : v.flag? = some b ↔ v = .scalar (.boolean b) := by
  constructor
  · intro h
    unfold flag? at h
    split at h
    · cases h; rfl
    · cases h
  · rintro rfl; rfl

theorem level?_eq_some_iff {v : Value} {l : Level} : v.level? = some l ↔
    v = .scalar (.string l.word) ∨ v = .table [(l.word, .table [])] ∨ v = .table [(l.word, .array [])] := by
  constructor
  · intro h
    unfold level? at h
    split at h
    · rw [Level.word_of_ofWord? h]; exact .inl rfl
    · rw [Level.word_of_ofWord? h]; exact .inr (.inl rfl)
    · rw [Level.word_of_ofWord? h]; exact .inr (.inr rfl)
    · cases h
  · rintro (rfl | rfl | rfl)
    all_goals exact Level.ofWord?_word l

end Toml.Value

def PathSettings.ofFields? (fs : Fields) : Option PathSettings := do
  let header ← fs.read "structures_header" 0 Value.text? (PathSettings.header {})
  let logs ← fs.read "logs_folder" 1 Value.text? (PathSettings.logs {})
  some ⟨header, logs⟩

def DeviceSettings.ofFields? (fs : Fields) : Option DeviceSettings := do
  let baud ← fs.read "baud_rate" 0 Value.word32? (DeviceSettings.baud {})
  let connect ← fs.read "connect_on_startup" 1 Value.flag? (DeviceSettings.connect {})
  some ⟨baud, connect⟩

def LogSettings.ofFields? (fs : Fields) : Option LogSettings := do
  let level ← fs.read "level" 0 Value.level? (LogSettings.level {})
  some ⟨level⟩

namespace Settings

def readSection {α : Type} (es : List (String × Value)) (s : Section) (read : Fields → Option α) (default : α) :
    Option α :=
  match es.find? fun e => e.1 == s.name with
  | none => some default
  | some (_, v) => v.fields?.bind read

def ofValues? (es : List (String × Value)) : Option Settings := do
  let paths ← readSection es .paths PathSettings.ofFields? {}
  let device ← readSection es .device DeviceSettings.ofFields? {}
  let logging ← readSection es .logging LogSettings.ofFields? {}
  some ⟨paths, device, logging⟩

end Settings

end Broadcast
