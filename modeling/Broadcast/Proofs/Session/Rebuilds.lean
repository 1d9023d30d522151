import Broadcast.Proofs.Session.Agreement
import Broadcast.Proofs.State.Independence

/-!
# When a tab is built anew

What a tab is made of changes with the preset of its group, with the number of
subgroups and with the names that are offered. Each such change adds one to the
generation of the tab and nothing else does, so a tab of the same generation has
the same widgets, unless a whole round of the counter lies between.
-/

namespace Broadcast

namespace Action

def setsPreset (id : GroupId) : Action → Bool
  | edit (.group i (.preset _)) => i = id
  | _ => false

def setsCount (id : GroupId) : Action → Bool
  | edit (.group i (.subgroupCount _)) => i = id
  | _ => false

def setsNames : Action → Bool
  | names _ => true
  | _ => false

end Action

namespace State

/-! ## Counting -/

@[simp] theorem rebuilds_nil (id : GroupId) : rebuilds id [] = 0 := rfl

theorem rebuilds_cons (id : GroupId) (a : Action) (as : List Action) :
    rebuilds id (a :: as) = rebuilds id [a] + rebuilds id as := by
  cases a with
  | names v =>
    rw [rebuilds_names, rebuilds_names, rebuilds_nil]
    omega
  | edit e =>
    rw [rebuilds_edit, rebuilds_edit, rebuilds_nil]
    omega

theorem rebuilds_single_le (id : GroupId) (a : Action) : rebuilds id [a] ≤ 1 := by
  cases a with
  | names v => simp [rebuilds_names]
  | edit e =>
    rw [rebuilds_edit]
    split <;> simp

theorem rebuilds_le_length (id : GroupId) (as : List Action) : rebuilds id as ≤ as.length := by
  induction as with
  | nil => exact Nat.le_refl 0
  | cons a as ih =>
    have := rebuilds_single_le id a
    rw [rebuilds_cons, List.length_cons]
    omega

theorem rebuilds_single (id : GroupId) (a : Action) :
    rebuilds id [a] =
      [a].countP (Action.setsPreset id) + [a].countP (Action.setsCount id) + [a].countP Action.setsNames := by
  cases a with
  | names v => rfl
  | edit e =>
    rw [rebuilds_edit, rebuilds_nil]
    cases e with
    | group i e' => cases e' <;> simp [Edit.rebuild?, Action.setsPreset, Action.setsCount, Action.setsNames]
    | subgroup i index e' => simp [Edit.rebuild?, Action.setsPreset, Action.setsCount, Action.setsNames]
    | custom i e' => simp [Edit.rebuild?, Action.setsPreset, Action.setsCount, Action.setsNames]

theorem rebuilds_eq (id : GroupId) (as : List Action) :
    rebuilds id as =
      as.countP (Action.setsPreset id) + as.countP (Action.setsCount id) + as.countP Action.setsNames := by
  induction as with
  | nil => rfl
  | cons a as ih =>
    have happend : a :: as = [a] ++ as := rfl
    rw [rebuilds_cons, rebuilds_single, ih, happend, List.countP_append, List.countP_append, List.countP_append]
    omega

theorem generation_fresh (v : Vocabulary) (id : GroupId) : (fresh v).generation id = 0 := by
  cases id <;> rfl

theorem rebuilds_eq_zero {s : State} {id : GroupId} {as : List Action} (hl : as.length < UInt64.size)
    (h : (s.run as).generation id = s.generation id) : rebuilds id as = 0 := by
  rw [generation_run] at h
  have hz : UInt64.ofNat (rebuilds id as) = 0 := UInt64.add_eq_left.mp h
  have hn : rebuilds id as % UInt64.size = 0 := by
    rw [UInt64.size, ← UInt64.toNat_ofNat', hz]
    rfl
  have hlt := rebuilds_le_length id as
  rwa [Nat.mod_eq_of_lt (by omega)] at hn

/-! ## What stays between rebuilds -/

/-- The states agree in what decides what the tab of a group is made of. -/
structure SameShape (s t : State) (id : GroupId) : Prop where
  preset : (t.group id).preset = (s.group id).preset
  count : (t.group id).subgroupCount = (s.group id).subgroupCount
  length : (t.group id).subgroups.length = (s.group id).subgroups.length
  vocabulary : t.vocabulary = s.vocabulary

theorem SameShape.refl (s : State) (id : GroupId) : s.SameShape s id := ⟨rfl, rfl, rfl, rfl⟩

theorem SameShape.trans {s t u : State} {id : GroupId} (h : s.SameShape t id) (k : t.SameShape u id) :
    s.SameShape u id :=
  ⟨k.preset.trans h.preset, k.count.trans h.count, k.length.trans h.length, k.vocabulary.trans h.vocabulary⟩

theorem shape_of_edit {g h : Group} {e : Edit} (hr : e.rebuild? = none) (he : g.edit e = .ok h) :
    h.preset = g.preset ∧ h.subgroupCount = g.subgroupCount ∧ h.subgroups.length = g.subgroups.length := by
  rcases Group.edit_cases he with ⟨i, e', rfl, rfl⟩ | ⟨i, index, e', t, rfl, -, rfl⟩ | ⟨i, e', rfl, -, -, rfl⟩
  · cases e' with
    | preset name => cases hr
    | subgroupCount n => cases hr
    | packing p => exact ⟨rfl, rfl, rfl⟩
    | encryption on => exact ⟨rfl, rfl, rfl⟩
    | code text => exact ⟨rfl, rfl, rfl⟩
  · exact ⟨rfl, rfl, List.length_set⟩
  · exact ⟨rfl, rfl, rfl⟩

theorem sameShape_act {s : State} {id : GroupId} {a : Action} (h : rebuilds id [a] = 0) : s.SameShape (s.act a) id := by
  cases a with
  | names v =>
    rw [rebuilds_names] at h
    omega
  | edit e =>
    have hr : e.rebuild? ≠ some id := by
      intro he
      rw [rebuilds_edit, if_pos he] at h
      omega
    have hv : (s.act (.edit e)).vocabulary = s.vocabulary := s.vocabulary_act (.edit e)
    have hg := s.group_act_edit e id
    by_cases ht : e.target = id
    · have hnone : e.rebuild? = none := by
        cases hs : e.rebuild? with
        | none => rfl
        | some i => exact absurd (by rw [hs, ← Edit.target_of_rebuild? hs, ht]) hr
      rw [if_pos ht] at hg
      cases he : (s.group id).edit e with
      | error err =>
        rw [Group.edited_of_error he] at hg
        exact ⟨by rw [hg], by rw [hg], by rw [hg], hv⟩
      | ok g =>
        rw [Group.edited_of_ok he] at hg
        obtain ⟨hp, hc, hl⟩ := shape_of_edit hnone he
        exact ⟨by rw [hg, hp], by rw [hg, hc], by rw [hg, hl], hv⟩
    · rw [if_neg ht] at hg
      exact ⟨by rw [hg], by rw [hg], by rw [hg], hv⟩

theorem sameShape_run {id : GroupId} (as : List Action) :
    ∀ {s : State}, rebuilds id as = 0 → s.SameShape (s.run as) id := by
  induction as with
  | nil => intro s _; exact .refl s id
  | cons a as ih =>
    intro s h
    rw [rebuilds_cons] at h
    exact (sameShape_act (by omega)).trans (ih (by omega))

end State

theorem Session.alike_groupTab {s r : Session} {id : GroupId} (h : s.state.SameShape r.state id) :
    List.Forall₂ Widget.Alike (s.groupTab id) (r.groupTab id) := by
  have hmode : r.state.inCustom id = s.state.inCustom id := congrArg Preset.isCustom h.preset
  rw [groupTab_eq, groupTab_eq]
  exact List.rel_append (alike_presetRow h.vocabulary id) (alike_details h.vocabulary hmode h.length)

namespace State

/-- **The generation of a tab counts what changes it.** It is the number of edits of the group's preset and of its
number of subgroups, and of exchanges of the names, as far as the counter goes. So between two points of a run with
the same generation nothing of the kind has happened, and the tab has the same widgets. -/
theorem generation_counts (v : Vocabulary) (as : List Action) (id : GroupId) :
    (((fresh v).run as).generation id).toNat =
        (as.countP (Action.setsPreset id) + as.countP (Action.setsCount id) + as.countP Action.setsNames) %
          UInt64.size ∧
      ∀ pre mid post, as = pre ++ mid ++ post → mid.length < UInt64.size →
        ((fresh v).run (pre ++ mid)).generation id = ((fresh v).run pre).generation id →
        (((fresh v).run (pre ++ mid)).group id).preset = (((fresh v).run pre).group id).preset ∧
        (((fresh v).run (pre ++ mid)).view id).custom = (((fresh v).run pre).view id).custom ∧
        (((fresh v).run (pre ++ mid)).group id).subgroupCount = (((fresh v).run pre).group id).subgroupCount ∧
        (((fresh v).run (pre ++ mid)).group id).subgroups.length = (((fresh v).run pre).group id).subgroups.length ∧
        ((fresh v).run (pre ++ mid)).vocabulary = ((fresh v).run pre).vocabulary ∧
        ∀ s r : Session, s.state = (fresh v).run pre → r.state = (fresh v).run (pre ++ mid) →
          List.Forall₂ Widget.Alike (s.groupTab id) (r.groupTab id) := by
  constructor
  · rw [generation_run, generation_fresh, UInt64.zero_add, UInt64.toNat_ofNat', rebuilds_eq]
  · intro pre mid post _ hl hg
    rw [run_append] at hg ⊢
    have h : ((fresh v).run pre).SameShape (((fresh v).run pre).run mid) id :=
      sameShape_run mid (rebuilds_eq_zero hl hg)
    refine ⟨h.preset, ?_, h.count, h.length, h.vocabulary, fun s r hs hr => ?_⟩
    · rw [Session.custom_view, Session.custom_view, inCustom, inCustom, Group.isCustom, Group.isCustom, h.preset]
    · rw [← hr, ← hs] at h
      exact Session.alike_groupTab h

/-- The preset of the other group is chosen, and an edit is refused. -/
theorem generation_counts_elsewhere :
    ∃ pre mid : List Action, mid.length = 2 ∧
      ((fresh .builtIn).run (pre ++ mid)).generation .first = ((fresh .builtIn).run pre).generation .first ∧
      (((fresh .builtIn).run (pre ++ mid)).group .first).preset = (((fresh .builtIn).run pre).group .first).preset := by
  have hg : ((fresh .builtIn).run ([.edit (.group .first (.preset "mine"))] ++
        [.edit (.group .second (.preset "8_1_1")), .edit (.subgroup .first 0 (.streams 2))])).generation .first =
      ((fresh .builtIn).run [.edit (.group .first (.preset "mine"))]).generation .first := by decide +kernel
  have hshape := (generation_counts .builtIn _ .first).2 _ _ [] (List.append_nil _).symm (by decide) hg
  exact ⟨_, _, rfl, hg, hshape.1⟩

end State

end Broadcast
