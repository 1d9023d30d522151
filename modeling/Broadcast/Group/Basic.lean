import Broadcast.Preset.Bitrate

/-!
# Broadcast groups

A group of streams that are sent together: its preset, its subgroups and how
they are packed and encrypted. A group whose preset is custom shows its own
parameters, every other group those of the catalog.
-/

namespace Broadcast

inductive GroupId where
  | first
  | second
  deriving DecidableEq, Repr

namespace GroupId

def all : List GroupId := [first, second]

def name : GroupId → String
  | first => "BIG0"
  | second => "BIG1"

end GroupId

inductive Packing where
  | sequential
  | interleaved
  deriving DecidableEq, Repr, Inhabited

namespace Packing

def all : List Packing := [sequential, interleaved]

def name : Packing → String
  | sequential => "Sequential"
  | interleaved => "Interleaved"

def ofName? (s : String) : Option Packing :=
  all.find? fun p => p.name == s

end Packing

def codeMax : Nat := 16

def languageMax : Nat := 3

def streamsMin : UInt8 := 1

structure Subgroup where
  context : String := notSet
  streams : UInt8 := streamsMin
  language : String := "-"
  /-- The audio locations of the streams; nobody sets them yet. -/
  locations : List String := []
  deriving DecidableEq, Repr, Inhabited

structure Group where
  preset : String := notSet
  subgroupCount : UInt8 := 0
  subgroups : List Subgroup := []
  packing : Packing := .sequential
  encrypted : Bool := false
  code : String := ""
  custom : Params := {}
  deriving DecidableEq, Repr, Inhabited

namespace Group

def isCustom (g : Group) : Bool := Preset.isCustom g.preset

/-- One subgroup more or less, towards the count; nothing once the count is reached. -/
def step? (g : Group) : Option Group :=
  if g.subgroups.length < g.subgroupCount.toNat then some { g with subgroups := g.subgroups ++ [{}] }
  else if g.subgroupCount.toNat < g.subgroups.length then some { g with subgroups := g.subgroups.dropLast }
  else none

def steps : Nat → Group → Group
  | 0, g => g
  | n + 1, g =>
    match g.step? with
    | some g => steps n g
    | none => g

def gap (g : Group) : Nat :=
  (g.subgroupCount.toNat - g.subgroups.length) + (g.subgroups.length - g.subgroupCount.toNat)

def settle (g : Group) : Group := steps g.gap g

theorem gap_step? {g h : Group} (e : g.step? = some h) : g.gap = h.gap + 1 := by
  simp only [step?] at e
  split at e
  · obtain rfl := Option.some.inj e
    simp only [gap, List.length_append, List.length_cons, List.length_nil]
    omega
  · split at e
    · obtain rfl := Option.some.inj e
      simp only [gap, List.length_dropLast]
      omega
    · simp at e

theorem step?_eq_none_iff (g : Group) : g.step? = none ↔ g.subgroups.length = g.subgroupCount.toNat := by
  simp only [step?]
  split
  · simp; omega
  · split
    · simp; omega
    · simp; omega

end Group

structure PresetView where
  name : String
  custom : Bool
  params : Params
  deriving DecidableEq, Repr

namespace PresetView

def of (g : Group) : PresetView :=
  match Preset.find? g.preset with
  | some p => ⟨g.preset, false, p.params⟩
  | none => ⟨g.preset, true, g.custom⟩

def bitrateText (v : PresetView) : String :=
  Broadcast.bitrateText v.params.octetsPerSdu v.params.sduInterval

end PresetView

end Broadcast
