import Broadcast.Proofs.State.Refusals

/-!
# Edits that commute

Each edit is about one field. Two edits of different fields of a group can be made
in either order, with two exceptions: a preset decides whether the parameters can
be edited and what they start from, and a number of subgroups decides which of
them there are. Where neither decides anything, these commute as well.
-/

namespace Broadcast

/-! ## Fields -/

inductive Field where
  | preset
  | subgroupCount
  | packing
  | encryption
  | code
  | context (index : Nat)
  | streams (index : Nat)
  | language (index : Nat)
  | sduInterval
  | framing
  | octetsPerSdu
  | rtn
  | maxTransportLatency
  | presentationDelay
  deriving DecidableEq, Repr

def GroupEdit.field : GroupEdit → Field
  | preset _ => .preset
  | subgroupCount _ => .subgroupCount
  | packing _ => .packing
  | encryption _ => .encryption
  | code _ => .code

def SubgroupEdit.field (index : Nat) : SubgroupEdit → Field
  | context _ => .context index
  | streams _ => .streams index
  | language _ => .language index

def CustomEdit.field : CustomEdit → Field
  | sduInterval _ => .sduInterval
  | framing _ => .framing
  | octetsPerSdu _ => .octetsPerSdu
  | rtn _ => .rtn
  | maxTransportLatency _ => .maxTransportLatency
  | presentationDelay _ => .presentationDelay

def Edit.field : Edit → Field
  | group _ e => e.field
  | subgroup _ index e => e.field index
  | custom _ e => e.field

theorem GroupEdit.field_normal (e : GroupEdit) : e.normal.field = e.field := by
  cases e <;> rfl

theorem SubgroupEdit.field_normal (i : Nat) (e : SubgroupEdit) : e.normal.field i = e.field i := by
  cases e <;> rfl

theorem CustomEdit.field_normal (e : CustomEdit) : e.normal.field = e.field := by
  cases e <;> rfl

/-! ## Storing in two fields -/

theorem Subgroup.store_comm (s : Subgroup) {i : Nat} {d e : SubgroupEdit} (h : d.field i ≠ e.field i) :
    (s.store d).store e = (s.store e).store d := by
  cases d <;> cases e <;> first | rfl | exact absurd rfl h

theorem Params.store_comm (p : Params) {d e : CustomEdit} (h : d.field ≠ e.field) :
    (p.store d).store e = (p.store e).store d := by
  cases d <;> cases e <;> first | rfl | exact absurd rfl h

theorem resized_modify {n i : Nat} {l : List Subgroup} (hn : i < n) (hl : i < l.length) (f : Subgroup → Subgroup) :
    resized n (l.modify i f) = (resized n l).modify i f := by
  have hcut : i < (l.take n).length := by rw [List.length_take]; omega
  have happend (rest : List Subgroup) : (l.take n ++ rest).modify i f = (l.take n).modify i f ++ rest := by
    rw [List.modify_eq_take_cons_drop hcut, List.modify_eq_take_cons_drop (by rw [List.length_append]; omega),
      List.take_append_of_le_length (by omega), List.drop_append_of_le_length hcut, List.getElem_append_left hcut]
    exact (List.append_assoc _ (_ :: _) _).symm
  unfold resized
  rw [List.length_modify, List.take_modify, happend]

namespace Group

theorem store_comm (g : Group) {d e : GroupEdit} (h : d.field ≠ e.field) :
    (g.store d).store e = (g.store e).store d := by
  cases d <;> cases e <;> first
    | rfl
    | exact absurd rfl h
    | simp only [store_subgroupCount]; rfl

/-! ## What becomes of a group -/

def result (g : Group) (e : Edit) : Except EditError Outcome := (g.edit e).map fun _ => ⟨e.normal, e.rebuild?⟩

theorem edited_subgroup (g : Group) (id : GroupId) (i : Nat) (e : SubgroupEdit) :
    g.edited (.subgroup id i e) = { g with subgroups := g.subgroups.modify i (·.store e.normal) } := by
  cases hs : g.subgroups[i]? with
  | none =>
    have hl : g.subgroups.length ≤ i := List.getElem?_eq_none_iff.mp hs
    rw [List.modify_eq_self hl]
    simp only [edited, edit, hs]
  | some s =>
    rw [List.modify_eq_set]
    simp only [edited, edit, hs, Option.getD_some]

theorem edited_custom (g : Group) (id : GroupId) (e : CustomEdit) :
    g.edited (.custom id e) =
      { g with custom := if g.isCustom && e.refusal?.isNone then g.custom.store e.normal else g.custom } := by
  cases hc : g.isCustom with
  | false =>
    simp only [edited, edit, hc]
    rfl
  | true =>
    cases hr : e.refusal? with
    | none =>
      simp only [edited, edit, hc, hr]
      rfl
    | some err =>
      simp only [edited, edit, hc, hr]
      rfl

theorem result_subgroup (g : Group) (id : GroupId) (i : Nat) (e : SubgroupEdit) :
    g.result (.subgroup id i e) =
      if i < g.subgroups.length then .ok ⟨(Edit.subgroup id i e).normal, none⟩
      else .error (.noSubgroup id i g.subgroups.length) := by
  split
  · rename_i hi
    simp only [result, edit, List.getElem?_eq_getElem hi]
    rfl
  · rename_i hi
    simp only [result, edit, List.getElem?_eq_none (Nat.le_of_not_lt hi)]
    rfl

theorem result_custom (g : Group) (id : GroupId) (e : CustomEdit) :
    g.result (.custom id e) =
      if g.isCustom then e.refusal?.elim (.ok ⟨(Edit.custom id e).normal, none⟩) .error
      else .error (.notCustom id g.preset) := by
  cases hc : g.isCustom with
  | false =>
    simp only [result, edit, hc]
    rfl
  | true =>
    cases hr : e.refusal? with
    | none =>
      simp only [result, edit, hc, hr]
      rfl
    | some err =>
      simp only [result, edit, hc, hr]
      rfl

/-- In either order both edits of a group have the same result, and the group becomes the same. -/
structure Commute (g : Group) (d e : Edit) : Prop where
  result_first : (g.edited e).result d = g.result d
  result_second : (g.edited d).result e = g.result e
  edited_both : (g.edited d).edited e = (g.edited e).edited d

theorem Commute.symm {g : Group} {d e : Edit} (h : g.Commute d e) : g.Commute e d :=
  ⟨h.result_second, h.result_first, h.edited_both.symm⟩

/-! ## Levels -/

variable (g : Group) {id other : GroupId}

theorem commute_group_group {d e : GroupEdit} (h : d.field ≠ e.field) : g.Commute (.group id d) (.group other e) := by
  refine ⟨rfl, rfl, g.store_comm ?_⟩
  rwa [d.field_normal, e.field_normal]

theorem commute_group_subgroup {d : GroupEdit} {i : Nat} {e : SubgroupEdit}
    (h : ∀ n, d = .subgroupCount n → i < g.subgroups.length ∧ i < n.toNat) :
    g.Commute (.group id d) (.subgroup other i e) := by
  cases d with
  | subgroupCount n =>
    obtain ⟨hl, hn⟩ := h n rfl
    have hs (g : Group) : g.edited (.group id (.subgroupCount n)) = _ := g.store_subgroupCount n
    refine ⟨rfl, ?_, ?_⟩
    · rw [hs, result_subgroup, result_subgroup, length_resized, if_pos hn, if_pos hl]
    · rw [hs, hs, edited_subgroup, edited_subgroup, resized_modify hn hl]
  | _ =>
    refine ⟨rfl, ?_, ?_⟩
    · rw [result_subgroup, result_subgroup]
      rfl
    · rw [edited_subgroup, edited_subgroup]
      rfl

theorem commute_group_custom {d : GroupEdit} {e : CustomEdit}
    (h : ∀ name, d = .preset name → g.isCustom = true ∧ Preset.isCustom name = true) :
    g.Commute (.group id d) (.custom other e) := by
  cases d with
  | preset name =>
    obtain ⟨hg, hn⟩ := h name rfl
    have hs {g : Group} (hg : g.isCustom = true) :
        g.edited (.group id (.preset name)) = { g with preset := name } := by
      show { g with preset := name, custom := (g.withPreset name).custom } = _
      rw [custom_withPreset (by rw [hg]; rfl)]
    have hafter : isCustom { g with preset := name } = true := hn
    refine ⟨rfl, ?_, ?_⟩
    · rw [hs hg, result_custom, result_custom, if_pos hg, if_pos hafter]
    · have hmode : (g.edited (.custom other e)).isCustom = true := by
        rw [edited_custom]
        exact hg
      rw [hs hmode, hs hg, edited_custom, edited_custom, hafter, hg]
  | subgroupCount n =>
    have hs (g : Group) : g.edited (.group id (.subgroupCount n)) = _ := g.store_subgroupCount n
    refine ⟨rfl, ?_, ?_⟩
    · rw [hs, result_custom, result_custom]
      rfl
    · rw [hs, hs, edited_custom, edited_custom]
      rfl
  | _ =>
    refine ⟨rfl, ?_, ?_⟩
    · rw [result_custom, result_custom]
      rfl
    · rw [edited_custom, edited_custom]
      rfl

theorem commute_subgroup_subgroup {i j : Nat} {d e : SubgroupEdit} (h : d.field i ≠ e.field j) :
    g.Commute (.subgroup id i d) (.subgroup other j e) := by
  refine ⟨?_, ?_, ?_⟩
  · rw [edited_subgroup, result_subgroup, result_subgroup, List.length_modify]
  · rw [edited_subgroup, result_subgroup, result_subgroup, List.length_modify]
  · simp only [edited_subgroup, mk.injEq, true_and, and_true]
    by_cases hij : i = j
    · subst hij
      have hstore (s : Subgroup) : (s.store d.normal).store e.normal = (s.store e.normal).store d.normal := by
        refine s.store_comm (i := i) ?_
        rwa [d.field_normal, e.field_normal]
      rw [List.modify_modify_eq, List.modify_modify_eq]
      exact congrArg (g.subgroups.modify i) (funext hstore)
    · exact List.modify_modify_ne _ _ _ hij

theorem commute_subgroup_custom {i : Nat} {d : SubgroupEdit} {e : CustomEdit} :
    g.Commute (.subgroup id i d) (.custom other e) := by
  refine ⟨?_, ?_, ?_⟩
  · rw [edited_custom, result_subgroup, result_subgroup]
  · rw [edited_subgroup, result_custom, result_custom]
    rfl
  · rw [edited_subgroup, edited_custom, edited_custom, edited_subgroup]
    rfl

theorem commute_custom_custom {d e : CustomEdit} (h : d.field ≠ e.field) :
    g.Commute (.custom id d) (.custom other e) := by
  have hresult (d e : CustomEdit) (id other : GroupId) :
      (g.edited (.custom other e)).result (.custom id d) = g.result (.custom id d) := by
    rw [edited_custom, result_custom, result_custom]
    rfl
  have hstore : (g.custom.store d.normal).store e.normal = (g.custom.store e.normal).store d.normal := by
    refine g.custom.store_comm ?_
    rwa [d.field_normal, e.field_normal]
  refine ⟨hresult _ _ _ _, hresult _ _ _ _, ?_⟩
  -- the mode stays, so that each edit is accepted or refused as it was
  have hmode (p : Params) : isCustom { g with custom := p } = g.isCustom := rfl
  simp only [edited_custom, hmode, mk.injEq, true_and]
  cases g.isCustom && d.refusal?.isNone with
  | false => rfl
  | true =>
    cases g.isCustom && e.refusal?.isNone with
    | false => rfl
    | true => exact hstore

/-- Where the preset decides about the parameters, or the number of subgroups about a subgroup. -/
inductive Interferes : Edit → Edit → Prop
  | mode {id other : GroupId} {name : String} (e : CustomEdit) :
      g.preset ∈ Preset.catalogNames ∨ name ∈ Preset.catalogNames →
      Interferes (.group id (.preset name)) (.custom other e)
  | count {id other : GroupId} {n : UInt8} {i : Nat} (e : SubgroupEdit) :
      g.subgroupCount.toNat ≤ i ∨ n.toNat ≤ i → Interferes (.group id (.subgroupCount n)) (.subgroup other i e)

variable {g}

theorem commute_group_subgroup_of_not_interferes (hlen : g.subgroups.length = g.subgroupCount.toNat) {d : GroupEdit}
    {i : Nat} {e : SubgroupEdit} (h : ¬ g.Interferes (.group id d) (.subgroup other i e)) :
    g.Commute (.group id d) (.subgroup other i e) := by
  refine g.commute_group_subgroup ?_
  rintro n rfl
  constructor
  · rw [hlen]
    exact Nat.lt_of_not_le fun hi => h (.count e (.inl hi))
  · exact Nat.lt_of_not_le fun hi => h (.count e (.inr hi))

theorem commute_group_custom_of_not_interferes {d : GroupEdit} {e : CustomEdit}
    (h : ¬ g.Interferes (.group id d) (.custom other e)) : g.Commute (.group id d) (.custom other e) := by
  refine g.commute_group_custom ?_
  rintro name rfl
  constructor
  · exact Preset.isCustom_iff.mpr fun hg => h (.mode e (.inl hg))
  · exact Preset.isCustom_iff.mpr fun hn => h (.mode e (.inr hn))

theorem commute_of_not_interferes (hlen : g.subgroups.length = g.subgroupCount.toNat) {d e : Edit}
    (hf : d.field ≠ e.field) (hde : ¬ g.Interferes d e) (hed : ¬ g.Interferes e d) : g.Commute d e := by
  cases d with
  | group id d =>
    cases e with
    | group other e => exact g.commute_group_group hf
    | subgroup other j e => exact commute_group_subgroup_of_not_interferes hlen hde
    | custom other e => exact commute_group_custom_of_not_interferes hde
  | subgroup id i d =>
    cases e with
    | group other e => exact (commute_group_subgroup_of_not_interferes hlen hed).symm
    | subgroup other j e => exact g.commute_subgroup_subgroup hf
    | custom other e => exact g.commute_subgroup_custom
  | custom id d =>
    cases e with
    | group other e => exact (commute_group_custom_of_not_interferes hed).symm
    | subgroup other j e => exact g.commute_subgroup_custom.symm
    | custom other e => exact g.commute_custom_custom hf

end Group

namespace State

structure Commute (s : State) (d e : Edit) : Prop where
  result_first : (s.act (.edit e)).result d = s.result d
  result_second : (s.act (.edit d)).result e = s.result e
  act_both : (s.act (.edit d)).act (.edit e) = (s.act (.edit e)).act (.edit d)

theorem result_eq_group (s : State) (e : Edit) : s.result e = (s.group e.target).result e := s.result_eq e

theorem generation_act_comm (s : State) (d e : Edit) (id : GroupId) :
    ((s.act (.edit d)).act (.edit e)).generation id = ((s.act (.edit e)).act (.edit d)).generation id := by
  simp only [generation_act_edit]
  split <;> split <;> rfl

theorem commute_of_group {s : State} {d e : Edit} (ht : d.target = e.target)
    (h : (s.group e.target).Commute d e) : s.Commute d e := by
  refine ⟨?_, ?_, ext_get ?_ (fun id => ?_) (s.generation_act_comm d e)⟩
  · rw [result_eq_group, result_eq_group, group_act_edit, ht, if_pos rfl, h.result_first]
  · rw [result_eq_group, result_eq_group, group_act_edit, if_pos ht, h.result_second]
  · rw [vocabulary_act, vocabulary_act, vocabulary_act, vocabulary_act]
    rfl
  · simp only [group_act_edit, ht]
    split
    · rename_i hid
      subst hid
      exact h.edited_both
    · rfl

/-- **Edits of different fields commute.** In either order both are accepted or refused alike and the state becomes the
same, unless one is of the preset and one of the parameters, or one of the number of subgroups and one of a subgroup.
These commute if the preset is no name of the catalog before and after, and if the subgroup is there before and
after. -/
theorem edits_commute {s : State} (hs : s.IsReached) {d e : Edit} (ht : d.target = e.target) (hf : d.field ≠ e.field)
    (hde : ¬ (s.group d.target).Interferes d e) (hed : ¬ (s.group d.target).Interferes e d) : s.Commute d e := by
  rw [ht] at hde hed
  exact commute_of_group ht (Group.commute_of_not_interferes (hs.wellFormed e.target).count hf hde hed)

/-- A group with parameters of its own and two subgroups: one preset of its own for another and a longer list of
subgroups change places with the other edits, while a catalog preset makes the parameters read-only. -/
theorem edits_commute_own_parameters :
    ∃ s : State, s.IsReached ∧
      s.Commute (.group .first (.preset "yours")) (.custom .first (.rtn 7)) ∧
      s.Commute (.subgroup .first 1 (.language "english")) (.group .first (.subgroupCount 5)) ∧
      ¬ s.Commute (.group .first (.preset "16_2_1")) (.custom .first (.rtn 7)) := by
  obtain ⟨s, hs⟩ : ∃ s, s = (fresh Vocabulary.builtIn).run
    [.edit (.group .first (.preset "mine")), .edit (.group .first (.subgroupCount 2))] := ⟨_, rfl⟩
  have hr : s.IsReached := ⟨_, _, hs⟩
  have htwo : (s.group .first).subgroupCount = 2 := by rw [hs]; decide +kernel
  have hown : (s.group .first).preset ∉ Preset.catalogNames := by rw [hs]; decide +kernel
  refine ⟨s, hr, edits_commute hr rfl (by decide) ?_ (by rintro ⟨⟩),
    edits_commute hr rfl (by decide) (by rintro ⟨⟩) ?_, fun hc => ?_⟩
  · rintro (⟨_, hg | hn⟩ | _)
    · exact hown hg
    · exact absurd hn (by decide +kernel)
  · rintro (_ | ⟨_, hg | hn⟩)
    · rw [show (Edit.subgroup GroupId.first 1 (.language "english")).target = .first from rfl, htwo] at hg
      exact absurd hg (by decide)
    · exact absurd hn (by decide)
  · have hsame := hc.result_second
    rw [hs] at hsame
    exact absurd hsame (by decide +kernel)

end State

end Broadcast
