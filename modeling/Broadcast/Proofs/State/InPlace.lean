import Broadcast.Proofs.State.Runs

/-!
# Edits in place

The same edits as programs that assign to one part of the state after the other.
What such a program has assigned stays when it fails later, so whether a refused
edit leaves the state alone is a matter of its order: all checks come first.
-/

namespace Broadcast

theorem PerGroup.set_set {α : Type} (p : PerGroup α) (id : GroupId) (a b : α) : (p.set id a).set id b = p.set id b := by
  cases id <;> rfl

/-- Programs on a state that can fail half-way. -/
abbrev InPlace := ExceptT EditError (StateM State)

namespace InPlace

def assign (id : GroupId) (f : Group → Group) : InPlace Unit :=
  modify fun s => { s with groups := s.groups.set id (f (s.group id)) }

def storeGroup (id : GroupId) : GroupEdit → InPlace Unit
  | .preset name => do
    let g := (← get).group id
    if !g.isCustom && Preset.isCustom name then
      assign id fun g => { g with custom := Preset.seed }
    assign id fun g => { g with preset := name }
  | .subgroupCount n => do
    assign id fun g => { g with subgroupCount := n }
    assign id Group.settle
  | .packing p => assign id fun g => { g with packing := p }
  | .encryption on => assign id fun g => { g with encrypted := on }
  | .code text => assign id fun g => { g with code := truncated codeMax text }

def storeSubgroup (id : GroupId) (i : Nat) (e : SubgroupEdit) : InPlace Unit := do
  let g := (← get).group id
  match g.subgroups[i]? with
  | none => throw (.noSubgroup id i g.subgroups.length)
  | some s => assign id fun g => { g with subgroups := g.subgroups.set i (s.store e.normal) }

def storeCustom (id : GroupId) (e : CustomEdit) : InPlace Unit := do
  let g := (← get).group id
  if !g.isCustom then throw (.notCustom id g.preset)
  match e.refusal? with
  | some err => throw err
  | none => assign id fun g => { g with custom := g.custom.store e.normal }

def store : Edit → InPlace Unit
  | .group id e => storeGroup id e
  | .subgroup id i e => storeSubgroup id i e
  | .custom id e => storeCustom id e

def perform (e : Edit) : InPlace Outcome := do
  store e
  match e.rebuild? with
  | some id => modify fun s => s.bump id
  | none => pure ()
  return ⟨e.normal, e.rebuild?⟩

/-! ## What the programs do -/

def runOn {α : Type} (p : InPlace α) (s : State) : Except EditError α × State := p.run.run s

theorem runOn_bind {α β : Type} (p : InPlace α) (q : α → InPlace β) (s : State) :
    runOn (p >>= q) s =
      match runOn p s with
      | (.ok a, t) => runOn (q a) t
      | (.error err, t) => (.error err, t) := by
  unfold runOn
  rw [ExceptT.run_bind, StateT.run_bind]
  rcases p.run.run s with ⟨_ | a, t⟩ <;> rfl

@[simp] theorem runOn_get_bind {β : Type} (q : State → InPlace β) (s : State) :
    runOn (get >>= q) s = runOn (q s) s := rfl

@[simp] theorem runOn_throw {α : Type} (err : EditError) (s : State) :
    runOn (throw err : InPlace α) s = (.error err, s) := rfl

@[simp] theorem runOn_assign (id : GroupId) (f : Group → Group) (s : State) :
    runOn (assign id f) s = (.ok (), { s with groups := s.groups.set id (f (s.group id)) }) := rfl

theorem runOn_assign_assign (id : GroupId) (f g : Group → Group) (s : State) :
    runOn (do assign id f; assign id g) s = (.ok (), { s with groups := s.groups.set id (g (f (s.group id))) }) := by
  rw [runOn_bind, runOn_assign]
  simp only [runOn_assign, State.group, PerGroup.get_set_self, PerGroup.set_set]

theorem runOn_storeGroup (id : GroupId) (e : GroupEdit) (s : State) :
    runOn (storeGroup id e) s = (.ok (), { s with groups := s.groups.set id ((s.group id).store e.normal) }) := by
  cases e with
  | preset name =>
    unfold storeGroup
    rw [runOn_get_bind]
    by_cases hc : (!(s.group id).isCustom && Preset.isCustom name) = true
    · simp only [hc, ite_true]
      rw [runOn_assign_assign]
      simp only [GroupEdit.normal, Group.store, Group.withPreset, hc, ite_true]
    · simp [hc, GroupEdit.normal, Group.store, Group.withPreset]
  | subgroupCount n => exact runOn_assign_assign id _ _ s
  | packing p => rfl
  | encryption on => rfl
  | code text => rfl

theorem runOn_storeSubgroup (id : GroupId) (i : Nat) (e : SubgroupEdit) (s : State) :
    runOn (storeSubgroup id i e) s =
      match (s.group id).edit (.subgroup id i e) with
      | .ok g => (.ok (), { s with groups := s.groups.set id g })
      | .error err => (.error err, s) := by
  unfold storeSubgroup Group.edit
  rw [runOn_get_bind]
  cases hs : (s.group id).subgroups[i]? with
  | none => simp only [hs, runOn_throw]
  | some t => simp only [hs, runOn_assign]

theorem runOn_storeCustom (id : GroupId) (e : CustomEdit) (s : State) :
    runOn (storeCustom id e) s =
      match (s.group id).edit (.custom id e) with
      | .ok g => (.ok (), { s with groups := s.groups.set id g })
      | .error err => (.error err, s) := by
  unfold storeCustom Group.edit
  rw [runOn_get_bind]
  by_cases hc : (s.group id).isCustom = true
  · simp only [hc, Bool.not_true, Bool.false_eq_true, ite_false]
    cases hr : e.refusal? with
    | some err => simp only [runOn_throw]
    | none => simp only [runOn_assign]
  · simp [hc]

theorem runOn_store (e : Edit) (s : State) :
    runOn (store e) s =
      match (s.group e.target).edit e with
      | .ok g => (.ok (), { s with groups := s.groups.set e.target g })
      | .error err => (.error err, s) := by
  cases e with
  | group id e => exact runOn_storeGroup id e s
  | subgroup id i e => exact runOn_storeSubgroup id i e s
  | custom id e => exact runOn_storeCustom id e s

/-- **Assigning part by part comes to the same** as exchanging the state as a whole, also when it fails. -/
theorem runOn_perform (e : Edit) (s : State) :
    runOn (perform e) s =
      match s.apply e with
      | .ok c => (.ok c.outcome, c.state)
      | .error err => (.error err, s) := by
  unfold perform
  rw [runOn_bind, runOn_store]
  cases he : (s.group e.target).edit e with
  | error err => simp only [State.apply_of_error he]
  | ok g =>
    simp only [State.apply_of_ok he]
    cases hr : e.rebuild? with
    | none => rfl
    | some id => rfl

end InPlace

end Broadcast
