import Broadcast.State

/-!
# Runs of a state

A state changes through edits, which may be refused, and through new names to
choose from. Each group changes only through the edits that are meant for it,
so a run of the state is, for each group, a run of that group.
-/

namespace Broadcast

inductive Action where
  | edit (e : Edit)
  | names (v : Vocabulary)
  deriving DecidableEq, Repr

def Action.editOf? (id : GroupId) : Action → Option Edit
  | edit e => if e.target = id then some e else none
  | names _ => none

namespace Action

theorem editOf?_of_target {id : GroupId} {e : Edit} (h : e.target = id) : editOf? id (.edit e) = some e := if_pos h

theorem editOf?_of_ne {id : GroupId} {e : Edit} (h : e.target ≠ id) : editOf? id (.edit e) = none := if_neg h

theorem editOf?_eq_some {id : GroupId} {a : Action} {e : Edit} (h : a.editOf? id = some e) :
    a = .edit e ∧ e.target = id := by
  cases a with
  | names v => cases h
  | edit e' =>
    by_cases ht : e'.target = id
    · rw [editOf?_of_target ht] at h
      obtain rfl := Option.some.inj h
      exact ⟨rfl, ht⟩
    · rw [editOf?_of_ne ht] at h
      cases h

end Action

namespace Group

def edited (g : Group) (e : Edit) : Group :=
  match g.edit e with
  | .ok h => h
  | .error _ => g

def run (g : Group) (es : List Edit) : Group := es.foldl edited g

theorem edited_of_ok {g h : Group} {e : Edit} (he : g.edit e = .ok h) : g.edited e = h := by
  unfold edited; rw [he]

theorem edited_of_error {g : Group} {e : Edit} {err : EditError} (he : g.edit e = .error err) : g.edited e = g := by
  unfold edited; rw [he]

/-- What an accepted edit is, and what it makes of the group. -/
theorem edit_cases {g h : Group} {e : Edit} (he : g.edit e = .ok h) :
    (∃ id e', e = .group id e' ∧ h = g.store e'.normal) ∨
    (∃ id i e' s, e = .subgroup id i e' ∧ g.subgroups[i]? = some s ∧
      h = { g with subgroups := g.subgroups.set i (s.store e'.normal) }) ∨
    (∃ id e', e = .custom id e' ∧ g.isCustom = true ∧ e'.refusal? = none ∧
      h = { g with custom := g.custom.store e'.normal }) := by
  cases e with
  | group id e' =>
    simp only [edit, Except.ok.injEq] at he
    exact .inl ⟨id, e', rfl, he.symm⟩
  | subgroup id i e' =>
    simp only [edit] at he
    split at he
    · rename_i s hs
      simp only [Except.ok.injEq] at he
      exact .inr (.inl ⟨id, i, e', s, rfl, hs, he.symm⟩)
    · cases he
  | custom id e' =>
    simp only [edit] at he
    split at he
    · cases he
    · rename_i hc
      split at he
      · cases he
      · rename_i hr
        simp only [Except.ok.injEq] at he
        exact .inr (.inr ⟨id, e', rfl, by simpa using hc, hr, he.symm⟩)

end Group

namespace State

def fresh (v : Vocabulary) : State := { vocabulary := v }

def act (s : State) : Action → State
  | .edit e =>
    match s.apply e with
    | .ok c => c.state
    | .error _ => s
  | .names v => s.setVocabulary v

def run (s : State) (as : List Action) : State := as.foldl act s

@[simp] theorem run_nil (s : State) : s.run [] = s := rfl

@[simp] theorem run_cons (s : State) (a : Action) (as : List Action) : s.run (a :: as) = (s.act a).run as := rfl

theorem run_append (s : State) (as bs : List Action) : s.run (as ++ bs) = (s.run as).run bs :=
  List.foldl_append

@[simp] theorem group_bump (s : State) (i id : GroupId) : (s.bump i).group id = s.group id := rfl

@[simp] theorem group_setVocabulary (s : State) (v : Vocabulary) (id : GroupId) :
    (s.setVocabulary v).group id = s.group id := rfl

theorem ext_get {s t : State} (hv : s.vocabulary = t.vocabulary) (hg : ∀ id, s.group id = t.group id)
    (hn : ∀ id, s.generation id = t.generation id) : s = t := by
  have hgroups := PerGroup.ext_get hg
  have hgenerations := PerGroup.ext_get hn
  cases s
  cases t
  subst hv hgroups hgenerations
  rfl

theorem apply_of_ok {s : State} {e : Edit} {g : Group} (he : (s.group e.target).edit e = .ok g) :
    s.apply e = .ok ⟨e.rebuild?.elim ({ s with groups := s.groups.set e.target g } : State)
      ({ s with groups := s.groups.set e.target g } : State).bump, ⟨e.normal, e.rebuild?⟩, s.reports e⟩ := by
  unfold apply; rw [he]

theorem apply_of_error {s : State} {e : Edit} {err : EditError} (he : (s.group e.target).edit e = .error err) :
    s.apply e = .error err := by
  unfold apply; rw [he]

theorem group_act_edit (s : State) (e : Edit) (id : GroupId) :
    (s.act (.edit e)).group id = if e.target = id then (s.group id).edited e else s.group id := by
  cases he : (s.group e.target).edit e with
  | error err =>
    simp only [act, apply_of_error he]
    split
    · rename_i ht; subst ht; rw [Group.edited_of_error he]
    · rfl
  | ok g =>
    have hg : (s.act (.edit e)).group id = (s.groups.set e.target g).get id := by
      simp only [act, apply_of_ok he]
      cases e.rebuild? <;> rfl
    rw [hg]
    split
    · rename_i ht; subst ht; rw [PerGroup.get_set_self, Group.edited_of_ok he]
    · rename_i ht; exact PerGroup.get_set_of_ne _ (Ne.symm ht) _

/-- **A group's own run.** Its edits, in their order, are all that changes it. -/
theorem group_run (s : State) (as : List Action) (id : GroupId) :
    (s.run as).group id = (s.group id).run (as.filterMap (Action.editOf? id)) := by
  induction as generalizing s with
  | nil => rfl
  | cons a as ih =>
    rw [run_cons, ih]
    cases a with
    | names v => rfl
    | edit e =>
      rw [group_act_edit]
      by_cases ht : e.target = id
      · rw [if_pos ht, List.filterMap_cons_some (Action.editOf?_of_target ht)]; rfl
      · rw [if_neg ht, List.filterMap_cons_none (Action.editOf?_of_ne ht)]

end State

end Broadcast
