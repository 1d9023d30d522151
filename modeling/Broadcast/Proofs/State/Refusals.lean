import Broadcast.Proofs.State.Independence
import Broadcast.Proofs.State.InPlace
import Broadcast.Proofs.State.Stored
import Broadcast.Proofs.State.WellFormed

/-!
# What is refused, and what an edit leaves alone

An edit is refused for one of three reasons, and then nothing at all has changed:
everything is checked before the first part of the state is assigned. An accepted
edit changes its own field. With the preset the parameters may change, with the
number of subgroups their list, and with these two the generation.
-/

namespace Broadcast

namespace State

/-- Why an edit is refused. Whether there is such a subgroup, and whether the parameters can be edited, is asked
before the value is looked at. -/
inductive Refuses (s : State) : Edit → EditError → Prop
  | noSubgroup {id : GroupId} {i : Nat} (e : SubgroupEdit) : (s.group id).subgroupCount.toNat ≤ i →
      Refuses s (.subgroup id i e) (.noSubgroup id i (s.group id).subgroupCount.toNat)
  | notCustom {id : GroupId} (e : CustomEdit) : (s.group id).preset ∈ Preset.catalogNames →
      Refuses s (.custom id e) (.notCustom id (s.group id).preset)
  | badInterval {id : GroupId} {us : UInt32} : (s.group id).preset ∉ Preset.catalogNames → us ≠ 7500 → us ≠ 10000 →
      Refuses s (.custom id (.sduInterval us)) (.badInterval us)

def IsReached (s : State) : Prop := ∃ v as, s = (fresh v).run as

theorem IsReached.wellFormed {s : State} (h : s.IsReached) (id : GroupId) : (s.group id).WellFormed := by
  obtain ⟨v, as, rfl⟩ := h
  exact (run_fresh_wellFormed v as id).1

theorem apply_eq_error_iff {s : State} {e : Edit} {err : EditError} :
    s.apply e = .error err ↔ (s.group e.target).edit e = .error err := by
  cases he : (s.group e.target).edit e with
  | error other => rw [apply_of_error he, Except.error.injEq, Except.error.injEq]
  | ok g => simp [apply_of_ok he]

end State

theorem CustomEdit.refusal?_eq_some_iff {e : CustomEdit} {err : EditError} :
    e.refusal? = some err ↔ ∃ us, e = .sduInterval us ∧ us ≠ 7500 ∧ us ≠ 10000 ∧ err = .badInterval us := by
  cases e with
  | sduInterval us =>
    by_cases hc : sduIntervals.contains us = true
    · have hm : us = 7500 ∨ us = 10000 := by simpa [sduIntervals] using hc
      simp only [refusal?, hc, ite_true, reduceCtorEq, false_iff]
      rintro ⟨_, he, h₁, h₂, -⟩
      cases he
      exact hm.elim h₁ h₂
    · have hm : us ≠ 7500 ∧ us ≠ 10000 := by simpa [sduIntervals] using hc
      simp only [refusal?, hc, Bool.false_eq_true, ite_false, Option.some.injEq]
      constructor
      · intro he
        exact ⟨us, rfl, hm.1, hm.2, he.symm⟩
      · rintro ⟨_, he, -, -, rfl⟩
        cases he
        rfl
  | framing f => simp [refusal?]
  | octetsPerSdu n => simp [refusal?]
  | rtn n => simp [refusal?]
  | maxTransportLatency ms => simp [refusal?]
  | presentationDelay us => simp [refusal?]

namespace State

variable {s : State} (h : s.IsReached)
include h

theorem refuses_subgroup {id : GroupId} {i : Nat} {e : SubgroupEdit} {err : EditError} :
    (s.group id).edit (.subgroup id i e) = .error err ↔ s.Refuses (.subgroup id i e) err := by
  have hlen := (h.wellFormed id).count
  cases hs : (s.group id).subgroups[i]? with
  | some t =>
    have hi : i < (s.group id).subgroups.length := (List.getElem?_eq_some_iff.mp hs).1
    simp only [Group.edit, hs, reduceCtorEq, false_iff]
    intro hr
    cases hr with
    | noSubgroup _ hle => omega
  | none =>
    have hi : (s.group id).subgroups.length ≤ i := List.getElem?_eq_none_iff.mp hs
    simp only [Group.edit, hs, hlen, Except.error.injEq]
    constructor
    · intro he
      rw [← he]
      exact .noSubgroup e (by omega)
    · intro hr
      cases hr
      rfl

omit h in
theorem refuses_custom {id : GroupId} {e : CustomEdit} {err : EditError} :
    (s.group id).edit (.custom id e) = .error err ↔ s.Refuses (.custom id e) err := by
  unfold Group.edit
  by_cases hc : (s.group id).isCustom = true
  · have hn : (s.group id).preset ∉ Preset.catalogNames := Preset.isCustom_iff.mp hc
    simp only [hc, Bool.not_true, Bool.false_eq_true, ite_false]
    cases hr : e.refusal? with
    | some other =>
      obtain ⟨us, rfl, h₁, h₂, rfl⟩ := CustomEdit.refusal?_eq_some_iff.mp hr
      constructor
      · intro he
        cases he
        exact .badInterval hn h₁ h₂
      · intro he
        cases he with
        | notCustom _ hm => exact absurd hm hn
        | badInterval _ _ _ => rfl
    | none =>
      constructor
      · intro he
        cases he
      · intro he
        cases he with
        | notCustom _ hm => exact absurd hm hn
        | badInterval _ h₁ h₂ =>
          rw [CustomEdit.refusal?_eq_some_iff.mpr ⟨_, rfl, h₁, h₂, rfl⟩] at hr
          cases hr
  · have hm : (s.group id).preset ∈ Preset.catalogNames :=
      Decidable.not_not.mp fun hn => hc (Preset.isCustom_iff.mpr hn)
    simp only [hc, Bool.not_false, ite_true]
    constructor
    · intro he
      cases he
      exact .notCustom e hm
    · intro he
      cases he with
      | notCustom _ _ => rfl
      | badInterval hn _ _ => exact absurd hm hn

theorem apply_eq_error_iff_refuses {e : Edit} {err : EditError} : s.apply e = .error err ↔ s.Refuses e err := by
  rw [apply_eq_error_iff]
  cases e with
  | group id e =>
    constructor
    · intro he
      cases he
    · intro hr
      cases hr
  | subgroup id i e => exact refuses_subgroup h
  | custom id e => exact refuses_custom

end State

/-! ## What stays -/

namespace State

theorem act_of_apply {s : State} {e : Edit} {c : Change} (hc : s.apply e = .ok c) : s.act (.edit e) = c.state := by
  simp only [act, hc]

theorem act_of_refused {s : State} {e : Edit} {err : EditError} (he : s.apply e = .error err) :
    s.act (.edit e) = s := by
  simp only [act, he]

theorem frames_apply {s : State} {e : Edit} {c : Change} (hc : s.apply e = .ok c) :
    e.Frames (s.group e.target) (c.state.group e.target) := by
  obtain ⟨g, he, -, hg, -⟩ := apply_cases hc
  rw [hg]
  exact Edit.frames_edit he

theorem group_of_apply_ne {s : State} {e : Edit} {c : Change} (hc : s.apply e = .ok c) {id : GroupId}
    (hne : id ≠ e.target) : c.state.group id = s.group id := by
  rw [← act_of_apply hc, group_act_edit, if_neg (Ne.symm hne)]

/-- **Refused or framed.** What refuses an edit is known from the state, and a refused edit leaves all of the state,
also where it is made by assigning part by part. An accepted one stores its value, and reaches nothing but its own
field, what belongs to that field, and the generation of its group. -/
theorem refused_or_framed {s : State} (hs : s.IsReached) (e : Edit) :
    (∀ err, s.apply e = .error err ↔ s.Refuses e err) ∧
    (∀ err, s.apply e = .error err →
      s.act (.edit e) = s ∧ InPlace.runOn (InPlace.perform e) s = (.error err, s)) ∧
    (∀ c, s.apply e = .ok c →
      s.act (.edit e) = c.state ∧ InPlace.runOn (InPlace.perform e) s = (.ok c.outcome, c.state) ∧
      c.state.current? e = some c.outcome.stored ∧
      c.state.vocabulary = s.vocabulary ∧
      (∀ id, id ≠ e.target → c.state.group id = s.group id) ∧
      e.Frames (s.group e.target) (c.state.group e.target) ∧
      (∀ id name, e = .group id (.preset name) → c.state.generation id = s.generation id + 1) ∧
      (∀ id n, e = .group id (.subgroupCount n) → c.state.generation id = s.generation id + 1) ∧
      ∀ id, (∀ name, e ≠ .group id (.preset name)) → (∀ n, e ≠ .group id (.subgroupCount n)) →
        c.state.generation id = s.generation id) := by
  refine ⟨fun err => apply_eq_error_iff_refuses hs, fun err he => ⟨act_of_refused he, ?_⟩, fun c hc => ?_⟩
  · rw [InPlace.runOn_perform, he]
  · obtain ⟨-, -, -, -, hv⟩ := apply_cases hc
    have hact := act_of_apply hc
    have hbumped : ∀ id, e.rebuild? = some id → c.state.generation id = s.generation id + 1 := fun id hr => by
      rw [← hact, generation_act_edit, if_pos hr]
    refine ⟨hact, ?_, current?_apply hc, hv, fun id hne => group_of_apply_ne hc hne, frames_apply hc,
      fun id name he => hbumped id (he ▸ rfl), fun id n he => hbumped id (he ▸ rfl), fun id hp hn => ?_⟩
    · rw [InPlace.runOn_perform, hc]
    · have hr : e.rebuild? ≠ some id := fun hr => (Edit.rebuild?_eq_some_iff.mp hr).elim
        (fun ⟨name, he⟩ => hp name he) fun ⟨n, he⟩ => hn n he
      rw [← hact, generation_act_edit, if_neg hr]

/-- A group with parameters of its own and two subgroups: it has no third one, and an interval is still one of two. -/
theorem refused_or_framed_own_parameters :
    ∃ s : State, s.IsReached ∧
      s.apply (.subgroup .first 2 (.language "eng")) = .error (.noSubgroup .first 2 2) ∧
      s.apply (.custom .first (.sduInterval 5000)) = .error (.badInterval 5000) ∧
      s.act (.edit (.custom .first (.sduInterval 5000))) = s := by
  obtain ⟨s, hs⟩ : ∃ s, s = (fresh Vocabulary.builtIn).run
    [.edit (.group .first (.preset "mine")), .edit (.group .first (.subgroupCount 2))] := ⟨_, rfl⟩
  have hr : s.IsReached := ⟨_, _, hs⟩
  have htwo : (s.group .first).subgroupCount.toNat = 2 := by rw [hs]; decide +kernel
  have hown : (s.group .first).preset ∉ Preset.catalogNames := by rw [hs]; decide +kernel
  have hi := (refused_or_framed hr (.subgroup .first 2 (.language "eng"))).1 (.noSubgroup .first 2 2)
  have hc := refused_or_framed hr (.custom .first (.sduInterval 5000))
  have hbad := (hc.1 (.badInterval 5000)).mpr (.badInterval hown (by decide) (by decide))
  refine ⟨s, hr, hi.mpr ?_, hbad, (hc.2.1 _ hbad).1⟩
  have hno := Refuses.noSubgroup (i := 2) (.language "eng") (Nat.le_of_eq htwo)
  rwa [htwo] at hno

end State

end Broadcast
