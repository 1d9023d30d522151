import Broadcast.Proofs.State.CustomMode

/-!
# What is stored

An accepted edit leaves its normal form in the field it is about. The edits of a
tab's details change neither the mode nor the number of subgroups.
-/

namespace Broadcast

/-! ## What an edit leaves -/

/-- The value of the field that an edit is about, if there is that field. -/
def State.current? (s : State) : Edit → Option Edit
  | .group id e => some (.group id ((s.group id).current e))
  | .subgroup id i e => ((s.group id).subgroups[i]?).map fun g => .subgroup id i (g.current e)
  | .custom id e => some (.custom id ((s.group id).custom.current e))

namespace State

theorem apply_cases {s : State} {e : Edit} {c : Change} (h : s.apply e = .ok c) :
    ∃ g, (s.group e.target).edit e = .ok g ∧ c.outcome = ⟨e.normal, e.rebuild?⟩ ∧ c.state.group e.target = g ∧
      c.state.vocabulary = s.vocabulary := by
  cases he : (s.group e.target).edit e with
  | error err =>
    rw [apply_of_error he] at h
    cases h
  | ok g =>
    rw [apply_of_ok he] at h
    cases h
    have hg : ({ s with groups := s.groups.set e.target g } : State).group e.target = g := PerGroup.get_set_self _ _ _
    refine ⟨g, rfl, rfl, ?_, ?_⟩
    · cases e.rebuild? <;> exact hg
    · cases e.rebuild? <;> rfl

/-- **An accepted edit is stored in its normal form.** -/
theorem current?_apply {s : State} {e : Edit} {c : Change} (h : s.apply e = .ok c) :
    c.state.current? e = some c.outcome.stored := by
  obtain ⟨g, he, ho, hg, -⟩ := apply_cases h
  rw [ho]
  rcases Group.edit_cases he with ⟨id, e', rfl, rfl⟩ | ⟨id, i, e', t, rfl, ht, rfl⟩ | ⟨id, e', rfl, -, -, rfl⟩
  · have hg : c.state.group id = _ := hg
    simp only [current?, hg, ← Group.current_normal _ e', Group.current_store]
    rfl
  · have hg : c.state.group id = _ := hg
    have hi : i < (s.group id).subgroups.length := (List.getElem?_eq_some_iff.mp ht).1
    have hset : ((s.group id).subgroups.set i (t.store e'.normal))[i]? = some (t.store e'.normal) :=
      List.getElem?_set_self hi
    simp only [current?, hg]
    show Option.map _ (((s.group id).subgroups.set i (t.store e'.normal))[i]?) = _
    rw [hset, Option.map_some, ← Subgroup.current_normal _ e', Subgroup.current_store]
    rfl
  · have hg : c.state.group id = _ := hg
    simp only [current?, hg, ← Params.current_normal _ e', Params.current_store]
    rfl

end State

namespace Edit

def IsDetail (id : GroupId) (e : Edit) : Prop :=
  (∃ e', e = .custom id e') ∨ ∃ i e', e = .subgroup id i e'

end Edit

theorem Group.shape_of_detail {g h : Group} {id : GroupId} {e : Edit} (hd : e.IsDetail id) (he : g.edit e = .ok h) :
    h.isCustom = g.isCustom ∧ h.subgroups.length = g.subgroups.length := by
  rcases edit_cases he with ⟨_, e', rfl, -⟩ | ⟨_, i, e', t, -, -, rfl⟩ | ⟨_, e', -, -, -, rfl⟩
  · rcases hd with ⟨_, hd⟩ | ⟨_, _, hd⟩ <;> cases hd
  · exact ⟨rfl, List.length_set⟩
  · exact ⟨rfl, rfl⟩

end Broadcast
