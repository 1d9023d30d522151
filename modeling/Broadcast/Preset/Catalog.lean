import Broadcast.Preset.Params

/-!
# The preset catalog

The presets of the Basic Audio Profile, in the order they are offered. A name
outside the catalog is not an error: such a preset is *custom*, and its
parameters can be edited.
-/

namespace Broadcast

def notSet : String := "Not_set"

/-- The name under which the lists of presets offer the editable one. -/
def customName : String := "Custom"

structure Preset where
  name : String
  params : Params
  reference : Nat
  deriving DecidableEq, Repr

namespace Preset

/-- A published preset: unframed, with a presentation delay of forty milliseconds. -/
def published (name : String) (interval : UInt32) (octets : UInt16) (reference : Nat) (rtn : UInt8)
    (latency : UInt16) : Preset :=
  ⟨name, ⟨interval, .unframed, octets, rtn, latency, 40000⟩, reference⟩

def catalog : List Preset :=
  [ ⟨notSet, {}, 0⟩,
    published "8_1_1" 7500 26 27734 2 8,
    published "8_1_2" 7500 26 27734 4 45,
    published "8_2_1" 10000 30 24000 2 10,
    published "8_2_2" 10000 30 24000 4 60,
    published "16_1_1" 7500 30 32000 2 8,
    published "16_1_2" 7500 30 32000 4 45,
    published "16_2_1" 10000 40 32000 2 10,
    published "16_2_2" 10000 40 32000 4 60,
    published "24_1_1" 7500 45 48000 2 8,
    published "24_1_2" 7500 45 48000 4 45,
    published "24_2_1" 10000 60 48000 2 10,
    published "24_2_2" 10000 60 48000 4 60,
    published "32_1_1" 7500 60 64000 2 8,
    published "32_1_2" 7500 60 64000 4 45,
    published "32_2_1" 10000 80 64000 2 10,
    published "32_2_2" 10000 80 64000 4 60,
    published "48_1_1" 7500 75 80000 4 15,
    published "48_1_2" 7500 75 80000 4 50,
    published "48_2_1" 10000 100 80000 4 20,
    published "48_2_2" 10000 100 80000 4 65,
    published "48_3_1" 7500 90 96000 4 15,
    published "48_3_2" 7500 90 96000 4 50,
    published "48_4_1" 10000 120 96000 4 20,
    published "48_4_2" 10000 120 96000 4 65,
    published "48_5_1" 7500 117 124800 4 15,
    published "48_5_2" 7500 117 124800 4 50,
    published "48_6_1" 10000 155 124000 4 20,
    published "48_6_2" 10000 155 124000 4 65 ]

def catalogNames : List String := catalog.map name

def find? (name : String) : Option Preset :=
  catalog.find? fun p => p.name == name

def isCustom (name : String) : Bool :=
  (find? name).isNone

/-- The parameters of the last catalog entry, which custom mode starts from. -/
def seed : Params :=
  (catalog.getLast?.map params).getD {}

theorem isCustom_iff {n : String} : isCustom n = true ↔ n ∉ catalogNames := by
  simp only [isCustom, find?, Option.isNone_iff_eq_none, List.find?_eq_none, catalogNames, List.mem_map, not_exists,
    not_and, beq_iff_eq]

theorem isCustom_notSet : isCustom notSet = false := by decide

theorem seed_sduInterval : seed.sduInterval = 10000 := by decide

theorem name_of_find? {n : String} {p : Preset} (h : find? n = some p) : p.name = n := by
  have := List.find?_some h
  simpa using this

end Preset

end Broadcast
