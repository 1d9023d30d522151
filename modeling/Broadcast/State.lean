import Broadcast.Device.Command
import Broadcast.Group.Edit
import Broadcast.Header.Vocabulary

/-!
# The state of an editing session

Both groups, the names to choose from, and for each group how often its tab has
to be built anew. An edit is applied to its group as a whole or not at all.
-/

namespace Broadcast

structure PerGroup (α : Type) where
  first : α
  second : α
  deriving DecidableEq, Repr

namespace PerGroup

variable {α : Type}

def get (p : PerGroup α) : GroupId → α
  | .first => p.first
  | .second => p.second

def set (p : PerGroup α) (id : GroupId) (a : α) : PerGroup α :=
  match id with
  | .first => { p with first := a }
  | .second => { p with second := a }

def map {β : Type} (f : α → β) (p : PerGroup α) : PerGroup β := ⟨f p.first, f p.second⟩

def toList (p : PerGroup α) : List α := [p.first, p.second]

@[simp] theorem get_set_self (p : PerGroup α) (id : GroupId) (a : α) : (p.set id a).get id = a := by
  cases id <;> rfl

theorem get_set_of_ne (p : PerGroup α) {id other : GroupId} (h : other ≠ id) (a : α) :
    (p.set id a).get other = p.get other := by
  cases id <;> cases other <;> simp_all [get, set]

@[simp] theorem get_map {β : Type} (f : α → β) (p : PerGroup α) (id : GroupId) : (p.map f).get id = f (p.get id) := by
  cases id <;> rfl

theorem ext_get {p q : PerGroup α} (h : ∀ id, p.get id = q.get id) : p = q := by
  have h₁ := h .first
  have h₂ := h .second
  cases p; cases q
  simp_all [get]

end PerGroup

structure State where
  vocabulary : Vocabulary
  groups : PerGroup Group := ⟨{}, {}⟩
  /-- How often the tab of a group has been built anew. -/
  generations : PerGroup UInt64 := ⟨0, 0⟩
  deriving DecidableEq, Repr

structure Outcome where
  stored : Edit
  rebuild : Option GroupId
  deriving DecidableEq, Repr

structure Change where
  state : State
  outcome : Outcome
  log : List Record := []
  deriving DecidableEq, Repr

namespace Edit

/-- The presets and the number of subgroups decide what a tab is made of. -/
def rebuild? : Edit → Option GroupId
  | group id (.preset _) => some id
  | group id (.subgroupCount _) => some id
  | _ => none

end Edit

namespace State

def group (s : State) (id : GroupId) : Group := s.groups.get id

def generation (s : State) (id : GroupId) : UInt64 := s.generations.get id

def view (s : State) (id : GroupId) : PresetView := .of (s.group id)

def startOrder (s : State) : StartOrder := ⟨(s.group .first).preset⟩

def bump (s : State) (id : GroupId) : State :=
  { s with generations := s.generations.set id (s.generation id + 1) }

def setVocabulary (s : State) (v : Vocabulary) : State :=
  (({ s with vocabulary := v } : State).bump .first).bump .second

def reports (s : State) : Edit → List Record
  | .group id e =>
    if (s.group id).entersCustom e then [⟨.debug, "bct_core::state", id.name ++ " entered custom mode", []⟩] else []
  | _ => []

def apply (s : State) (e : Edit) : Except EditError Change :=
  match (s.group e.target).edit e with
  | .error err => .error err
  | .ok g =>
    let edited : State := { s with groups := s.groups.set e.target g }
    .ok ⟨e.rebuild?.elim edited edited.bump, ⟨e.normal, e.rebuild?⟩, s.reports e⟩

end State

end Broadcast
