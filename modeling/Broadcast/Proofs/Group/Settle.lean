import Broadcast.Group.Edit

/-!
# Where the steps towards a count end

Steps add or take away one subgroup at the end of the list, so the subgroups in
front stay, and what is missing is filled up with default ones. The number of
steps is the distance between the list and the count.
-/

namespace Broadcast

def resized (n : Nat) (l : List Subgroup) : List Subgroup :=
  l.take n ++ List.replicate (n - l.length) ({} : Subgroup)

theorem length_resized (n : Nat) (l : List Subgroup) : (resized n l).length = n := by
  unfold resized
  rw [List.length_append, List.length_take, List.length_replicate]
  omega

theorem mem_resized {n : Nat} {l : List Subgroup} {s : Subgroup} (h : s ∈ resized n l) :
    s ∈ l ∨ s = ({} : Subgroup) := by
  rcases List.mem_append.mp h with h | h
  · exact .inl (List.mem_of_mem_take h)
  · exact .inr (List.eq_of_mem_replicate h)

theorem resized_length (l : List Subgroup) : resized l.length l = l := by
  simp [resized]

theorem resized_concat {n : Nat} {l : List Subgroup} (h : l.length < n) :
    resized n (l ++ [({} : Subgroup)]) = resized n l := by
  have hn : n - l.length = (n - (l.length + 1)) + 1 := by omega
  unfold resized
  rw [List.take_of_length_le (by simp; omega), List.take_of_length_le (by omega), hn, List.replicate_succ]
  simp

theorem resized_dropLast {n : Nat} {l : List Subgroup} (h : n < l.length) : resized n l.dropLast = resized n l := by
  have hd : l.dropLast.length = l.length - 1 := List.length_dropLast
  unfold resized
  rw [List.dropLast_eq_take, List.take_take, List.length_take]
  have h₁ : min n (l.length - 1) = n := by omega
  have h₂ : n - min (l.length - 1) l.length = n - l.length := by omega
  rw [h₁, h₂]

namespace Group

theorem step?_cases {g h : Group} (e : g.step? = some h) :
    (g.subgroups.length < g.subgroupCount.toNat ∧ h = { g with subgroups := g.subgroups ++ [{}] }) ∨
    (g.subgroupCount.toNat < g.subgroups.length ∧ h = { g with subgroups := g.subgroups.dropLast }) := by
  unfold step? at e
  split at e
  · rename_i hl; exact .inl ⟨hl, (Option.some.inj e).symm⟩
  · split at e
    · rename_i hl; exact .inr ⟨hl, (Option.some.inj e).symm⟩
    · cases e

theorem resized_step? {g h : Group} (e : g.step? = some h) :
    { h with subgroups := resized h.subgroupCount.toNat h.subgroups } =
      { g with subgroups := resized g.subgroupCount.toNat g.subgroups } := by
  rcases step?_cases e with ⟨hl, rfl⟩ | ⟨hl, rfl⟩
  · simp only [resized_concat hl]
  · simp only [resized_dropLast hl]

theorem steps_gap (n : Nat) : ∀ g : Group, g.gap = n →
    steps n g = { g with subgroups := resized g.subgroupCount.toNat g.subgroups } := by
  induction n with
  | zero =>
    intro g hg
    have hl : g.subgroups.length = g.subgroupCount.toNat := by unfold gap at hg; omega
    rw [← hl, resized_length]; rfl
  | succ n ih =>
    intro g hg
    cases e : g.step? with
    | none =>
      rw [step?_eq_none_iff] at e
      unfold gap at hg; omega
    | some h =>
      have hh : h.gap = n := by have := gap_step? e; omega
      simp only [steps, e]
      rw [ih h hh, resized_step? e]

/-- **Where the steps end.** Only the list of subgroups changes. -/
theorem settle_eq (g : Group) : g.settle = { g with subgroups := resized g.subgroupCount.toNat g.subgroups } :=
  steps_gap g.gap g rfl

theorem store_subgroupCount (g : Group) (n : UInt8) :
    g.store (.subgroupCount n) = { g with subgroupCount := n, subgroups := resized n.toNat g.subgroups } :=
  settle_eq _

end Group

end Broadcast
