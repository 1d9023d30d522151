import Broadcast.Proofs.State.CustomMode

/-!
# The groups are independent

What becomes of a group depends on its own edits alone, and how often its tab is
built anew on these and on how often the names are exchanged. So whatever is done
to the other group can be left out of a run, and the edits of the two groups can
be mixed in any way.
-/

namespace Broadcast

namespace Action

def vocabulary? : Action → Option Vocabulary
  | names v => some v
  | edit _ => none

end Action

namespace Edit

def preset? : Edit → Option String
  | group _ (.preset name) => some name
  | _ => none

theorem rebuild?_eq_some_iff {e : Edit} {id : GroupId} :
    e.rebuild? = some id ↔ (∃ name, e = group id (.preset name)) ∨ ∃ n, e = group id (.subgroupCount n) := by
  constructor
  · intro h
    cases e with
    | group i e' =>
      cases e' with
      | preset name => cases h; exact .inl ⟨name, rfl⟩
      | subgroupCount n => cases h; exact .inr ⟨n, rfl⟩
      | packing p => cases h
      | encryption on => cases h
      | code text => cases h
    | subgroup i index e' => cases h
    | custom i e' => cases h
  · rintro (⟨name, rfl⟩ | ⟨n, rfl⟩) <;> rfl

theorem target_of_rebuild? {e : Edit} {id : GroupId} (h : e.rebuild? = some id) : e.target = id := by
  rcases rebuild?_eq_some_iff.mp h with ⟨name, rfl⟩ | ⟨n, rfl⟩ <;> rfl

end Edit

/-! ## Results of edits -/

namespace Group

def results (g : Group) : List Edit → List (Except EditError Outcome)
  | [] => []
  | e :: es => ((g.edit e).map fun _ => ⟨e.normal, e.rebuild?⟩) :: (g.edited e).results es

theorem preset_edited (g : Group) (e : Edit) : (g.edited e).preset = e.preset?.getD g.preset := by
  cases he : g.edit e with
  | error err =>
    have hn : e.preset? = none := by
      cases e with
      | group id e' => cases he
      | subgroup id i e' => rfl
      | custom id e' => rfl
    rw [edited_of_error he, hn]
    rfl
  | ok h =>
    rw [edited_of_ok he]
    rcases edit_mode he with ⟨id, name, rfl, rfl⟩ | ⟨id, e', rfl, -, rfl⟩ | ⟨-, hp, -⟩
    · rfl
    · rfl
    · cases hn : e.preset? with
      | none => exact hp
      | some name =>
        cases e with
        | group id e' => cases e' <;> cases hn; cases he; rfl
        | subgroup id i e' => cases hn
        | custom id e' => cases hn

theorem preset_run (es : List Edit) :
    ∀ g : Group, (g.run es).preset = ((es.filterMap Edit.preset?).getLast?).getD g.preset := by
  induction es with
  | nil => intro g; rfl
  | cons e es ih =>
    intro g
    show ((g.edited e).run es).preset = _
    rw [ih, preset_edited]
    cases hp : e.preset? with
    | none => rw [List.filterMap_cons_none hp]; rfl
    | some name => rw [List.filterMap_cons_some hp, List.getLast?_cons]; rfl

end Group

namespace State

def result (s : State) (e : Edit) : Except EditError Outcome := (s.apply e).map Change.outcome

def results (s : State) (id : GroupId) : List Action → List (Except EditError Outcome)
  | [] => []
  | a :: as => ((a.editOf? id).map s.result).toList ++ (s.act a).results id as

theorem result_eq (s : State) (e : Edit) :
    s.result e = ((s.group e.target).edit e).map fun _ => ⟨e.normal, e.rebuild?⟩ := by
  unfold result
  cases he : (s.group e.target).edit e with
  | error err => rw [apply_of_error he]; rfl
  | ok g => rw [apply_of_ok he]; rfl

theorem group_act (s : State) (a : Action) (id : GroupId) :
    (s.act a).group id = ((a.editOf? id).map (s.group id).edited).getD (s.group id) := by
  cases a with
  | names v => rfl
  | edit e =>
    rw [group_act_edit]
    by_cases ht : e.target = id
    · rw [if_pos ht, Action.editOf?_of_target ht]
      rfl
    · rw [if_neg ht, Action.editOf?_of_ne ht]
      rfl

theorem results_run (as : List Action) (id : GroupId) : ∀ s : State,
    s.results id as = (s.group id).results (as.filterMap (Action.editOf? id)) := by
  induction as with
  | nil => intro s; rfl
  | cons a as ih =>
    intro s
    unfold results
    rw [ih, group_act]
    cases ha : a.editOf? id with
    | none => rw [List.filterMap_cons_none ha]; rfl
    | some e =>
      rw [List.filterMap_cons_some ha]
      simp only [Option.map_some, Option.toList_some, Option.getD_some, List.cons_append, List.nil_append,
        Group.results, result_eq, (Action.editOf?_eq_some ha).2]

/-! ## Generations and names -/

theorem generation_bump (s : State) (i id : GroupId) :
    (s.bump i).generation id = if i = id then s.generation id + 1 else s.generation id := by
  unfold generation bump
  split
  · rename_i h; subst h; exact PerGroup.get_set_self _ _ _
  · rename_i h; exact PerGroup.get_set_of_ne _ (Ne.symm h) _

theorem generation_act_edit (s : State) (e : Edit) (id : GroupId) :
    (s.act (.edit e)).generation id = if e.rebuild? = some id then s.generation id + 1 else s.generation id := by
  cases he : (s.group e.target).edit e with
  | error err =>
    have hn : e.rebuild? = none := by
      cases e with
      | group i e' => cases he
      | subgroup i index e' => rfl
      | custom i e' => rfl
    simp only [act, apply_of_error he, hn, reduceCtorEq, ite_false]
  | ok g =>
    simp only [act, apply_of_ok he]
    cases e.rebuild? with
    | none => rfl
    | some i =>
      simp only [Option.elim_some, Option.some.injEq]
      exact generation_bump _ i id

theorem generation_act_names (s : State) (v : Vocabulary) (id : GroupId) :
    (s.act (.names v)).generation id = s.generation id + 1 := by
  show ((({ s with vocabulary := v } : State).bump .first).bump .second).generation id = _
  rw [generation_bump, generation_bump]
  cases id <;> rfl

def rebuilds (id : GroupId) (as : List Action) : Nat :=
  (as.filterMap (Action.editOf? id)).countP (fun e => e.rebuild?.isSome) + (as.filterMap Action.vocabulary?).length

theorem rebuilds_names (id : GroupId) (v : Vocabulary) (as : List Action) :
    rebuilds id (.names v :: as) = rebuilds id as + 1 := rfl

theorem rebuilds_edit (id : GroupId) (e : Edit) (as : List Action) :
    rebuilds id (.edit e :: as) = rebuilds id as + if e.rebuild? = some id then 1 else 0 := by
  have hnames : (Action.edit e :: as).filterMap Action.vocabulary? = as.filterMap Action.vocabulary? := rfl
  unfold rebuilds
  rw [hnames]
  by_cases ht : e.target = id
  · have hr : e.rebuild?.isSome = decide (e.rebuild? = some id) := by
      cases hr : e.rebuild? with
      | none => rfl
      | some i =>
        have hi : i = id := (Edit.target_of_rebuild? hr).symm.trans ht
        simp [hi]
    rw [List.filterMap_cons_some (Action.editOf?_of_target ht), List.countP_cons, hr]
    simp only [decide_eq_true_eq]
    omega
  · have hr : e.rebuild? ≠ some id := fun h => ht (Edit.target_of_rebuild? h)
    rw [List.filterMap_cons_none (Action.editOf?_of_ne ht), if_neg hr]
    rfl

theorem generation_run (as : List Action) (id : GroupId) : ∀ s : State,
    (s.run as).generation id = s.generation id + UInt64.ofNat (rebuilds id as) := by
  have hadd : ∀ (g : UInt64) (n : Nat), g + 1 + UInt64.ofNat n = g + UInt64.ofNat (n + 1) := by
    intro g n
    rw [UInt64.ofNat_add, UInt64.add_assoc, UInt64.add_comm 1]
    rfl
  induction as with
  | nil => intro s; exact (UInt64.add_zero _).symm
  | cons a as ih =>
    intro s
    rw [run_cons, ih]
    cases a with
    | names v => rw [generation_act_names, rebuilds_names, hadd]
    | edit e =>
      rw [generation_act_edit, rebuilds_edit]
      split
      · exact hadd _ _
      · rfl

theorem vocabulary_act (s : State) (a : Action) : (s.act a).vocabulary = a.vocabulary?.getD s.vocabulary := by
  cases a with
  | names v => rfl
  | edit e =>
    cases he : (s.group e.target).edit e with
    | error err => simp only [act, apply_of_error he]; rfl
    | ok g =>
      simp only [act, apply_of_ok he]
      cases e.rebuild? <;> rfl

theorem vocabulary_run (as : List Action) : ∀ s : State,
    (s.run as).vocabulary = ((as.filterMap Action.vocabulary?).getLast?).getD s.vocabulary := by
  induction as with
  | nil => intro s; rfl
  | cons a as ih =>
    intro s
    rw [run_cons, ih, vocabulary_act]
    cases ha : a.vocabulary? with
    | none => rw [List.filterMap_cons_none ha]; rfl
    | some v => rw [List.filterMap_cons_some ha, List.getLast?_cons]; rfl

end State

/-! ## What one group sees of a run -/

/-- A run without the edits of the other group, where other names may be offered. -/
inductive SeenBy (id : GroupId) : List Action → List Action → Prop
  | nil : SeenBy id [] []
  | own {e : Edit} {as bs : List Action} : e.target = id → SeenBy id as bs →
      SeenBy id (.edit e :: as) (.edit e :: bs)
  | other {e : Edit} {as bs : List Action} : e.target ≠ id → SeenBy id as bs → SeenBy id (.edit e :: as) bs
  | names {v w : Vocabulary} {as bs : List Action} : SeenBy id as bs → SeenBy id (.names v :: as) (.names w :: bs)

namespace SeenBy

variable {id : GroupId} {as bs : List Action} (h : SeenBy id as bs)
include h

theorem edits : as.filterMap (Action.editOf? id) = bs.filterMap (Action.editOf? id) := by
  induction h with
  | nil => rfl
  | own ht _ ih =>
    have hs := Action.editOf?_of_target ht
    rw [List.filterMap_cons_some hs, List.filterMap_cons_some hs, ih]
  | other ht _ ih => rw [List.filterMap_cons_none (Action.editOf?_of_ne ht), ih]
  | names _ ih => exact ih

theorem length_names : (as.filterMap Action.vocabulary?).length = (bs.filterMap Action.vocabulary?).length := by
  induction h with
  | nil => rfl
  | own _ _ ih => exact ih
  | other _ _ ih => exact ih
  | names _ ih => exact congrArg (· + 1) ih

end SeenBy

namespace State

theorem run_eq_of_parts {s : State} {as bs : List Action}
    (he : ∀ id, as.filterMap (Action.editOf? id) = bs.filterMap (Action.editOf? id))
    (hv : as.filterMap Action.vocabulary? = bs.filterMap Action.vocabulary?) : s.run as = s.run bs := by
  refine ext_get ?_ (fun id => ?_) fun id => ?_
  · rw [vocabulary_run, vocabulary_run, hv]
  · rw [group_run, group_run, he id]
  · rw [generation_run, generation_run, rebuilds, rebuilds, he id, hv]

theorem startOrder_run (s : State) (as : List Action) :
    (s.run as).startOrder =
      ⟨(((as.filterMap (Action.editOf? .first)).filterMap Edit.preset?).getLast?).getD (s.group .first).preset⟩ := by
  unfold startOrder
  rw [group_run, Group.preset_run]

/-- **The groups are independent.** A group, its tab and the results of its edits are the same when the
edits of the other group are left out and other names are offered. So the edits of the two groups can be
mixed in any way, and the start button orders the last preset the first group was set to. -/
theorem independent_groups {id : GroupId} {as bs : List Action} (h : SeenBy id as bs) (v w : Vocabulary) :
    (((fresh v).run as).group id = ((fresh w).run bs).group id ∧
      ((fresh v).run as).generation id = ((fresh w).run bs).generation id ∧
      ((fresh v).run as).view id = ((fresh w).run bs).view id ∧
      (fresh v).results id as = (fresh w).results id bs) ∧
    (∀ mixed : List Action,
      (∀ each, mixed.filterMap (Action.editOf? each) = as.filterMap (Action.editOf? each)) →
      mixed.filterMap Action.vocabulary? = as.filterMap Action.vocabulary? →
      (fresh v).run mixed = (fresh v).run as) ∧
    ((fresh v).run as).startOrder =
      ⟨(((as.filterMap (Action.editOf? .first)).filterMap Edit.preset?).getLast?).getD notSet⟩ := by
  have hstart : (fresh v).group id = (fresh w).group id := by cases id <;> rfl
  have hgroup : ((fresh v).run as).group id = ((fresh w).run bs).group id := by
    rw [group_run, group_run, hstart, h.edits]
  have hgeneration : ((fresh v).run as).generation id = ((fresh w).run bs).generation id := by
    have hzero : (fresh v).generation id = (fresh w).generation id := by cases id <;> rfl
    rw [generation_run, generation_run, hzero, rebuilds, rebuilds, h.edits, h.length_names]
  refine ⟨⟨hgroup, hgeneration, congrArg PresetView.of hgroup, ?_⟩, fun mixed he hv => run_eq_of_parts he hv, ?_⟩
  · rw [results_run, results_run, hstart, h.edits]
  · exact startOrder_run (fresh v) as

/-- The second group enters custom mode and has an edit refused, while the first one is set to a preset. -/
theorem independent_groups_second :
    SeenBy .second
      [.edit (.group .second (.preset customName)), .edit (.group .first (.preset "16_2_1")), .names .builtIn,
        .edit (.subgroup .second 0 (.streams 2))]
      [.edit (.group .second (.preset customName)), .names ⟨["x"], [], []⟩, .edit (.subgroup .second 0 (.streams 2))] ∧
    (fresh .builtIn).results .second
      [.edit (.group .second (.preset customName)), .edit (.group .first (.preset "16_2_1")), .names .builtIn,
        .edit (.subgroup .second 0 (.streams 2))] =
      (fresh ⟨[], [], []⟩).results .second
        [.edit (.group .second (.preset customName)), .names ⟨["x"], [], []⟩,
          .edit (.subgroup .second 0 (.streams 2))] ∧
    ((fresh .builtIn).run
      [.edit (.group .second (.preset customName)), .edit (.group .first (.preset "16_2_1")), .names .builtIn,
        .edit (.subgroup .second 0 (.streams 2))]).startOrder = ⟨"16_2_1"⟩ := by
  have h : SeenBy .second
      [.edit (.group .second (.preset customName)), .edit (.group .first (.preset "16_2_1")), .names .builtIn,
        .edit (.subgroup .second 0 (.streams 2))]
      [.edit (.group .second (.preset customName)), .names ⟨["x"], [], []⟩, .edit (.subgroup .second 0 (.streams 2))] :=
    .own rfl (.other (by decide) (.names (.own rfl .nil)))
  obtain ⟨⟨-, -, -, hr⟩, -, ho⟩ := independent_groups h .builtIn ⟨[], [], []⟩
  exact ⟨h, hr, ho⟩

end State

end Broadcast
