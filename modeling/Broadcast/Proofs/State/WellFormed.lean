import Broadcast.Proofs.Group.Settle
import Broadcast.Proofs.State.Runs

/-!
# What holds in every state

Every value that is stored is in range, and the list of subgroups is as long as
the count says. The interval of a custom preset is one of those that are
offered: coming from the catalog it is the seed's, and an edit of it is refused
unless it is offered. So the interval that is shown is zero only where no preset
has been chosen.
-/

namespace Broadcast

structure Subgroup.WellFormed (s : Subgroup) : Prop where
  streams : 1 ≤ s.streams
  language : s.language.length ≤ 3
  locations : s.locations = []

/-- What holds of a group after any edits. -/
structure Group.WellFormed (g : Group) : Prop where
  count : g.subgroups.length = g.subgroupCount.toNat
  subgroups : ∀ s ∈ g.subgroups, s.WellFormed
  code : g.code.length ≤ 16
  rtn : g.custom.rtn ≤ 10
  interval : g.custom.sduInterval = 0 ∨ g.custom.sduInterval = 7500 ∨ g.custom.sduInterval = 10000
  offered : g.preset ∉ Preset.catalogNames → g.custom.sduInterval = 7500 ∨ g.custom.sduInterval = 10000

theorem Subgroup.wellFormed_default : ({} : Subgroup).WellFormed :=
  ⟨by decide, by decide, rfl⟩

theorem Group.wellFormed_default : ({} : Group).WellFormed where
  count := rfl
  subgroups := by intro s hs; cases hs
  code := by decide
  rtn := by decide
  interval := .inl rfl
  offered := fun h => absurd (by decide) h

/-! ## One step -/

theorem CustomEdit.mem_of_refusal? {us : UInt32} (h : (sduInterval us).refusal? = none) :
    us = 7500 ∨ us = 10000 := by
  have hm : us ∈ sduIntervals := by
    by_cases hc : sduIntervals.contains us = true
    · exact List.contains_iff_mem.mp hc
    · simp only [refusal?, hc, Bool.false_eq_true, ite_false] at h; cases h
  simpa [sduIntervals] using hm

theorem streamsMin_le_max (n : UInt8) : 1 ≤ max streamsMin n := by
  show 1 ≤ if streamsMin ≤ n then n else streamsMin
  split
  · rename_i h; exact h
  · exact UInt8.le_refl _

theorem Subgroup.wellFormed_store {s : Subgroup} (w : s.WellFormed) (e : SubgroupEdit) :
    (s.store e.normal).WellFormed := by
  cases e with
  | context name => exact ⟨w.streams, w.language, w.locations⟩
  | streams n => exact ⟨streamsMin_le_max _, w.language, w.locations⟩
  | language text => exact ⟨w.streams, length_truncated_le _ _, w.locations⟩

namespace Group

variable {g : Group} (w : g.WellFormed)
include w

theorem wellFormed_withPreset (name : String) : (g.withPreset name).WellFormed := by
  have hseed : Preset.seed.sduInterval = 10000 := Preset.seed_sduInterval
  have hrtn : Preset.seed.rtn ≤ 10 := by decide
  unfold withPreset
  by_cases hc : (!g.isCustom && Preset.isCustom name) = true
  · simp only [hc, ite_true]
    exact ⟨w.count, w.subgroups, w.code, hrtn, .inr (.inr hseed), fun _ => .inr hseed⟩
  · simp only [hc]
    refine ⟨w.count, w.subgroups, w.code, w.rtn, w.interval, fun hn => w.offered ?_⟩
    -- the new name is custom, so the old one was custom already
    have hnew : Preset.isCustom name = true := Preset.isCustom_iff.mpr hn
    rw [hnew, Bool.and_true, Bool.not_eq_true, Bool.not_eq_false'] at hc
    exact Preset.isCustom_iff.mp hc

theorem wellFormed_store (e : GroupEdit) : (g.store e.normal).WellFormed := by
  cases e with
  | preset name => exact wellFormed_withPreset w name
  | subgroupCount n =>
    simp only [GroupEdit.normal, store_subgroupCount]
    refine ⟨length_resized _ _, fun s hm => ?_, w.code, w.rtn, w.interval, w.offered⟩
    rcases mem_resized hm with hm | rfl
    · exact w.subgroups s hm
    · exact Subgroup.wellFormed_default
  | packing p => exact ⟨w.count, w.subgroups, w.code, w.rtn, w.interval, w.offered⟩
  | encryption on => exact ⟨w.count, w.subgroups, w.code, w.rtn, w.interval, w.offered⟩
  | code text => exact ⟨w.count, w.subgroups, length_truncated_le _ _, w.rtn, w.interval, w.offered⟩

theorem wellFormed_subgroup {i : Nat} {s : Subgroup} (hs : g.subgroups[i]? = some s) (e : SubgroupEdit) :
    ({ g with subgroups := g.subgroups.set i (s.store e.normal) } : Group).WellFormed := by
  refine ⟨by rw [List.length_set]; exact w.count, fun t ht => ?_, w.code, w.rtn, w.interval, w.offered⟩
  rcases List.mem_or_eq_of_mem_set ht with ht | rfl
  · exact w.subgroups t ht
  · exact Subgroup.wellFormed_store (w.subgroups s (List.mem_of_getElem? hs)) e

theorem wellFormed_custom {e : CustomEdit} (he : e.refusal? = none) :
    ({ g with custom := g.custom.store e.normal } : Group).WellFormed := by
  cases e with
  | sduInterval us =>
    have hus := CustomEdit.mem_of_refusal? he
    exact ⟨w.count, w.subgroups, w.code, w.rtn, .inr hus, fun _ => hus⟩
  | rtn n => exact ⟨w.count, w.subgroups, w.code, Std.min_le_left, w.interval, w.offered⟩
  | framing f => exact ⟨w.count, w.subgroups, w.code, w.rtn, w.interval, w.offered⟩
  | octetsPerSdu n => exact ⟨w.count, w.subgroups, w.code, w.rtn, w.interval, w.offered⟩
  | maxTransportLatency ms => exact ⟨w.count, w.subgroups, w.code, w.rtn, w.interval, w.offered⟩
  | presentationDelay us => exact ⟨w.count, w.subgroups, w.code, w.rtn, w.interval, w.offered⟩

theorem wellFormed_edited (e : Edit) : (g.edited e).WellFormed := by
  cases he : g.edit e with
  | error err => rw [edited_of_error he]; exact w
  | ok h =>
    rw [edited_of_ok he]
    rcases edit_cases he with ⟨_, e', -, rfl⟩ | ⟨_, i, e', s, -, hs, rfl⟩ | ⟨_, e', -, -, hr, rfl⟩
    · exact wellFormed_store w e'
    · exact wellFormed_subgroup w hs e'
    · exact wellFormed_custom w hr

theorem wellFormed_run (es : List Edit) : (g.run es).WellFormed := by
  induction es generalizing g with
  | nil => exact w
  | cons e es ih => exact ih (wellFormed_edited w e)

end Group

/-! ## What is shown -/

theorem Preset.mem_catalog_of_find? {n : String} {p : Preset} (h : find? n = some p) : p ∈ catalog :=
  List.mem_of_find?_eq_some h

theorem Preset.interval_catalog : ∀ p ∈ catalog, (p.params.sduInterval = 0 ↔ p.name = notSet) := by
  decide

theorem PresetView.interval_of {g : Group} (w : g.WellFormed) :
    (PresetView.of g).params.sduInterval = 0 ↔ g.preset = notSet := by
  unfold PresetView.of
  cases hf : Preset.find? g.preset with
  | some p =>
    rw [← Preset.name_of_find? hf]
    exact Preset.interval_catalog p (Preset.mem_catalog_of_find? hf)
  | none =>
    have hc : Preset.isCustom g.preset = true := by simp [Preset.isCustom, hf]
    refine iff_of_false ?_ ?_
    · rcases w.offered (Preset.isCustom_iff.mp hc) with h | h <;> (simp only [h]; decide)
    · intro hn
      rw [hn, Preset.isCustom_notSet] at hc; cases hc

/-- **Every reachable state is well formed**, and shows no interval exactly where
no preset has been chosen. -/
theorem State.run_fresh_wellFormed (v : Vocabulary) (as : List Action) (id : GroupId) :
    (((fresh v).run as).group id).WellFormed ∧
      ((((fresh v).run as).view id).params.sduInterval = 0 ↔ (((fresh v).run as).group id).preset = notSet) := by
  have hfresh : (fresh v).group id = {} := by cases id <;> rfl
  have w : (((fresh v).run as).group id).WellFormed := by
    rw [group_run, hfresh]
    exact Group.wellFormed_run Group.wellFormed_default _
  exact ⟨w, PresetView.interval_of w⟩

end Broadcast
