import Broadcast.Proofs.Group.Settle
import Broadcast.Proofs.State.Runs

/-!
# Which subgroups survive

A count that is set is reached in steps at the end of the list, as many as it is
away. So what a run of counts leaves of a list is its front, as long as the list
was at its shortest, and default subgroups behind it.
-/

namespace Broadcast

/-! ## Steps until nothing is left to do -/

namespace Group

/-- The loop makes `n` steps from a group to another one, and stops there. -/
inductive Stepping : Nat → Group → Group → Prop
  | stop {g : Group} : g.step? = none → Stepping 0 g g
  | step {n : Nat} {g h k : Group} : g.step? = some h → Stepping n h k → Stepping (n + 1) g k

theorem gap_eq_natAbs (g : Group) : g.gap = ((g.subgroupCount.toNat : Int) - g.subgroups.length).natAbs := by
  unfold gap
  omega

theorem stepping_steps (n : Nat) : ∀ g : Group, g.gap = n → Stepping n g (steps n g) := by
  induction n with
  | zero =>
    intro g hg
    have hl : g.subgroups.length = g.subgroupCount.toNat := by unfold gap at hg; omega
    exact .stop ((step?_eq_none_iff g).mpr hl)
  | succ n ih =>
    intro g hg
    cases e : g.step? with
    | none =>
      rw [step?_eq_none_iff] at e
      unfold gap at hg
      omega
    | some h =>
      have hh : h.gap = n := by have := gap_step? e; omega
      have hs : steps (n + 1) g = steps n h := by simp only [steps, e]
      rw [hs]
      exact .step e (ih h hh)

theorem Stepping.unique {n m : Nat} {g h k : Group} (hn : Stepping n g h) (hm : Stepping m g k) : n = m ∧ h = k := by
  induction hn generalizing m with
  | stop e =>
    cases hm with
    | stop _ => exact ⟨rfl, rfl⟩
    | step e' _ => rw [e] at e'; cases e'
  | step e _ ih =>
    cases hm with
    | stop e' => rw [e] at e'; cases e'
    | step e' hm =>
      obtain rfl := Option.some.inj (e.symm.trans e')
      obtain ⟨rfl, rfl⟩ := ih hm
      exact ⟨rfl, rfl⟩

/-- **The loop makes as many steps as the list is away from the count**, and nothing else is left to do then. -/
theorem stepping_iff {n : Nat} {g h : Group} :
    Stepping n g h ↔ n = ((g.subgroupCount.toNat : Int) - g.subgroups.length).natAbs ∧ h = g.settle := by
  have hs := stepping_steps g.gap g rfl
  rw [← gap_eq_natAbs]
  constructor
  · exact fun hn => hn.unique hs
  · rintro ⟨rfl, rfl⟩
    exact hs

end Group

/-! ## One count after the other -/

def survivors (kept count : Nat) (l : List Subgroup) : List Subgroup :=
  l.take kept ++ List.replicate (count - kept) ({} : Subgroup)

theorem survivors_length (l : List Subgroup) : survivors l.length l.length l = l := by
  simp [survivors]

theorem resized_survivors {kept count : Nat} {l : List Subgroup} (hl : kept ≤ l.length) (hc : kept ≤ count) (n : Nat) :
    resized n (survivors kept count l) = survivors (min kept n) n l := by
  have hlen : (l.take kept).length = kept := by rw [List.length_take]; omega
  unfold resized survivors
  rw [List.take_append, List.take_take, List.take_replicate, List.length_append, hlen, List.length_replicate,
    List.append_assoc, List.replicate_append_replicate, Nat.min_comm n kept]
  have hfill : min (n - kept) (count - kept) + (n - (kept + (count - kept))) = n - min kept n := by omega
  rw [hfill]

namespace Edit

def count? : Edit → Option Nat
  | group _ (.subgroupCount n) => some n.toNat
  | _ => none

def isOfSubgroup : Edit → Bool
  | subgroup .. => true
  | _ => false

end Edit

namespace Group

theorem subgroups_edited {g : Group} {e : Edit} (h : e.isOfSubgroup = false) :
    (g.edited e).subgroups = (e.count?.map fun n => resized n g.subgroups).getD g.subgroups := by
  cases he : g.edit e with
  | error err =>
    rw [edited_of_error he]
    cases e with
    | group id e' => cases he
    | subgroup id i e' => cases h
    | custom id e' => rfl
  | ok k =>
    rw [edited_of_ok he]
    rcases edit_cases he with ⟨id, e', rfl, rfl⟩ | ⟨id, i, e', t, rfl, -, -⟩ | ⟨id, e', rfl, -, -, rfl⟩
    · cases e' with
      | subgroupCount n =>
        simp only [GroupEdit.normal, store_subgroupCount]
        rfl
      | preset name => rfl
      | packing p => rfl
      | encryption on => rfl
      | code text => rfl
    · cases h
    · rfl

theorem subgroups_run (es : List Edit) (h : ∀ e ∈ es, e.isOfSubgroup = false) {l : List Subgroup} :
    ∀ {g : Group} {kept count : Nat}, kept ≤ l.length → kept ≤ count → g.subgroups = survivors kept count l →
      (g.run es).subgroups =
        survivors ((es.filterMap Edit.count?).foldl min kept) ((es.filterMap Edit.count?).getLast?.getD count) l := by
  induction es with
  | nil => exact fun _ _ hg => hg
  | cons e es ih =>
    intro g kept count hl hc hg
    rw [List.forall_mem_cons] at h
    have hstep := subgroups_edited (g := g) h.1
    show ((g.edited e).run es).subgroups = _
    cases hn : e.count? with
    | none =>
      rw [hn] at hstep
      rw [List.filterMap_cons_none hn]
      exact ih h.2 hl hc (hstep.trans hg)
    | some n =>
      rw [hn, Option.map_some, Option.getD_some, hg, resized_survivors hl hc] at hstep
      rw [List.filterMap_cons_some hn, List.foldl_cons, List.getLast?_cons, Option.getD_some]
      have hl' : min kept n ≤ l.length := Nat.le_trans (Nat.min_le_left kept n) hl
      exact ih h.2 hl' (Nat.min_le_right kept n) hstep

end Group

namespace State

def counts (id : GroupId) (as : List Action) : List Nat :=
  (as.filterMap (Action.editOf? id)).filterMap Edit.count?

theorem isOfSubgroup_of_mem {id : GroupId} {as : List Action} (h : ∀ i e, Action.edit (.subgroup id i e) ∉ as) :
    ∀ e ∈ as.filterMap (Action.editOf? id), e.isOfSubgroup = false := by
  intro e he
  obtain ⟨a, ha, hae⟩ := List.mem_filterMap.mp he
  obtain ⟨rfl, ht⟩ := Action.editOf?_eq_some hae
  cases e with
  | group i e' => rfl
  | custom i e' => rfl
  | subgroup i index e' =>
    obtain rfl : i = id := ht
    exact absurd ha (h index e')

/-- **Which subgroups survive.** Of the subgroups of a group stay as many as there were at the least in between,
whatever else is edited but the subgroups themselves; the rest of the last count is new. Each count is reached
in as many steps as it is away from the list. -/
theorem surviving_subgroups (s : State) (id : GroupId) (as : List Action)
    (h : ∀ i e, Action.edit (.subgroup id i e) ∉ as) :
    ((s.run as).group id).subgroups =
        ((s.group id).subgroups.take ((counts id as).foldl min (s.group id).subgroups.length)) ++
          List.replicate ((counts id as).getLast?.getD (s.group id).subgroups.length -
            (counts id as).foldl min (s.group id).subgroups.length) ({} : Subgroup) ∧
      ∀ pre n post, as = pre ++ .edit (.group id (.subgroupCount n)) :: post → ∀ steps after,
        Group.Stepping steps { (s.run pre).group id with subgroupCount := n } after ↔
          steps = ((n.toNat : Int) - ((s.run pre).group id).subgroups.length).natAbs ∧
            after = (s.run (pre ++ [.edit (.group id (.subgroupCount n))])).group id := by
  refine ⟨?_, fun pre n post _ steps after => ?_⟩
  · rw [group_run]
    have hall := (survivors_length (s.group id).subgroups).symm
    exact Group.subgroups_run _ (isOfSubgroup_of_mem h) (Nat.le_refl _) (Nat.le_refl _) hall
  · have hafter : (s.run (pre ++ [.edit (.group id (.subgroupCount n))])).group id =
        Group.settle { (s.run pre).group id with subgroupCount := n } := by
      rw [run_append, run_cons, run_nil, group_act_edit]
      exact if_pos rfl
    rw [hafter]
    exact Group.stepping_iff

/-- Of three subgroups one stays, and three new ones come behind it. -/
theorem surviving_subgroups_one :
    ∃ s as, s = (fresh .builtIn).run [.edit (.group .first (.subgroupCount 3)), .edit (.subgroup .first 0 (.streams 4)),
        .edit (.subgroup .first 1 (.streams 2))] ∧
      as = [Action.edit (.group .first (.subgroupCount 1)), .edit (.group .first (.preset "mine")),
        .edit (.subgroup .second 0 (.streams 3)), .edit (.group .first (.subgroupCount 4))] ∧
      (∀ i e, Action.edit (.subgroup .first i e) ∉ as) ∧
      ((s.run as).group .first).subgroups = [{ streams := 4 }, {}, {}, {}] := by
  obtain ⟨s, hs⟩ : ∃ s, s = (fresh .builtIn).run [.edit (.group .first (.subgroupCount 3)),
    .edit (.subgroup .first 0 (.streams 4)), .edit (.subgroup .first 1 (.streams 2))] := ⟨_, rfl⟩
  obtain ⟨as, has⟩ : ∃ as, as = [Action.edit (.group .first (.subgroupCount 1)), .edit (.group .first (.preset "mine")),
    .edit (.subgroup .second 0 (.streams 3)), .edit (.group .first (.subgroupCount 4))] := ⟨_, rfl⟩
  have h : ∀ i e, Action.edit (.subgroup .first i e) ∉ as := by simp [has]
  refine ⟨s, as, hs, has, h, ?_⟩
  rw [(surviving_subgroups s .first as h).1, hs, has]
  decide +kernel

end State

end Broadcast
