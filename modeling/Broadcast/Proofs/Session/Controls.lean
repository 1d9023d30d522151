import Broadcast.Proofs.State.Stored
import Broadcast.Session.View

/-!
# Controls

A control is a widget that sends edits: it shows the value of the field that its
edits are about. There are few of them, and each belongs to a group, to the
parameters of a group or to one of its subgroups. All that a control offers is
accepted as it is, except that long texts are cut.
-/

namespace Broadcast

inductive Choice where
  | option (label : String)
  | amount (n : Nat)
  | words (text : String)
  | switch (on : Bool)
  deriving DecidableEq, Repr

def Choice.cut : Edit → Choice → Choice
  | .group _ (.code _), words text => words (truncated 16 text)
  | .subgroup _ _ (.language _), words text => words (truncated 3 text)
  | _, x => x

def Edit.value : Edit → Choice
  | group _ (.preset name) => .option name
  | group _ (.subgroupCount n) => .amount n.toNat
  | group _ (.packing p) => .option p.name
  | group _ (.encryption on) => .switch on
  | group _ (.code text) => .words text
  | subgroup _ _ (.context name) => .option name
  | subgroup _ _ (.streams n) => .amount n.toNat
  | subgroup _ _ (.language text) => .words text
  | custom _ (.sduInterval us) => .option (Nat.repr us.toNat)
  | custom _ (.framing f) => .option f.name
  | custom _ (.octetsPerSdu n) => .amount n.toNat
  | custom _ (.rtn n) => .amount n.toNat
  | custom _ (.maxTransportLatency ms) => .amount ms.toNat
  | custom _ (.presentationDelay us) => .amount us.toNat

namespace Widget

/-- The edit that a widget sends when a value is chosen that it offers. -/
inductive Sends : Widget → Choice → Edit → Prop
  | pick {options : List (String × Edit)} {selected label : String} {e : Edit} :
      (label, e) ∈ options → Sends (.pick options selected) (.option label) e
  | number {value low high n : Nat} {edit : Nat → Edit} :
      low ≤ n → n ≤ high → Sends (.number value low high edit) (.amount n) (edit n)
  | input {value text : String} {edit : String → Edit} : Sends (.input value edit) (.words text) (edit text)
  | toggle {on new : Bool} {edit : Bool → Edit} : Sends (.toggle on edit) (.switch new) (edit new)

def value? : Widget → Option Choice
  | text _ => none
  | button _ _ => none
  | pick _ selected => some (.option selected)
  | number value _ _ _ => some (.amount value)
  | input value _ => some (.words value)
  | toggle on _ => some (.switch on)

/-- Widgets that differ in nothing but the value or the text they show. -/
inductive Alike : Widget → Widget → Prop
  | text (a b : String) : Alike (.text a) (.text b)
  | button (label : String) (m : Message) : Alike (.button label m) (.button label m)
  | pick (options : List (String × Edit)) (a b : String) : Alike (.pick options a) (.pick options b)
  | number (a b low high : Nat) (edit : Nat → Edit) : Alike (.number a low high edit) (.number b low high edit)
  | input (a b : String) (edit : String → Edit) : Alike (.input a edit) (.input b edit)
  | toggle (a b : Bool) (edit : Bool → Edit) : Alike (.toggle a edit) (.toggle b edit)

theorem Sends.value?_ne_none {w : Widget} {x : Choice} {e : Edit} (h : w.Sends x e) : w.value? ≠ none := by
  cases h <;> exact Option.some_ne_none _

theorem Alike.sends {w w' : Widget} (h : w.Alike w') {x : Choice} {e : Edit} (hs : w.Sends x e) : w'.Sends x e := by
  cases h with
  | text a b => cases hs
  | button label m => cases hs
  | pick options a b => cases hs with | pick hm => exact .pick hm
  | number a b low high edit => cases hs with | number hl hh => exact .number hl hh
  | input a b edit => cases hs with | input => exact .input
  | toggle a b edit => cases hs with | toggle => exact .toggle

theorem sends_names {options : List String} {selected : String} {edit : String → Edit} {x : Choice} {e : Edit}
    (h : (names options selected edit).Sends x e) : ∃ name, x = .option name ∧ e = edit name := by
  unfold names at h
  cases h with
  | pick hm =>
    obtain ⟨name, -, he⟩ := List.mem_map.mp hm
    obtain ⟨hl, he⟩ := Prod.mk.inj he
    exact ⟨name, congrArg Choice.option hl.symm, he.symm⟩

end Widget

namespace Session

open Widget

/-! ## Where controls are -/

inductive GroupControl (s : Session) (id : GroupId) : Widget → Prop
  | preset : GroupControl s id
      (names s.state.vocabulary.presets (s.state.group id).preset fun name => .group id (.preset name))
  | count : GroupControl s id
      (number (s.state.group id).subgroupCount.toNat 0 255 fun n => .group id (.subgroupCount n.toUInt8))
  | packing : GroupControl s id
      (pick (Packing.all.map fun p => (p.name, .group id (.packing p))) (s.state.group id).packing.name)
  | encryption : GroupControl s id (toggle (s.state.group id).encrypted fun on => .group id (.encryption on))
  | code : GroupControl s id (input (s.state.group id).code fun t => .group id (.code t))

inductive ParamControl (s : Session) (id : GroupId) : Widget → Prop
  | interval (h : s.state.inCustom id = true) : ParamControl s id
      (pick (sduIntervals.map fun us => (Nat.repr us.toNat, .custom id (.sduInterval us)))
        (Nat.repr (s.state.group id).custom.sduInterval.toNat))
  | framing (h : s.state.inCustom id = true) : ParamControl s id
      (pick (Framing.all.map fun f => (f.name, .custom id (.framing f))) (s.state.group id).custom.framing.name)
  | octets (h : s.state.inCustom id = true) : ParamControl s id
      (number (s.state.group id).custom.octetsPerSdu.toNat 0 65535 fun n => .custom id (.octetsPerSdu n.toUInt16))
  | rtn (h : s.state.inCustom id = true) : ParamControl s id
      (number (s.state.group id).custom.rtn.toNat rtnMin.toNat rtnMax.toNat fun n => .custom id (.rtn n.toUInt8))
  | latency (h : s.state.inCustom id = true) : ParamControl s id
      (number (s.state.group id).custom.maxTransportLatency.toNat 0 65535 fun n =>
        .custom id (.maxTransportLatency n.toUInt16))
  | delay (h : s.state.inCustom id = true) : ParamControl s id
      (number (s.state.group id).custom.presentationDelay.toNat 0 4294967295 fun n =>
        .custom id (.presentationDelay n.toUInt32))

inductive SubgroupControl (s : Session) (id : GroupId) : Widget → Prop
  | context {i : Nat} {g : Subgroup} (h : (s.state.group id).subgroups[i]? = some g) : SubgroupControl s id
      (names s.state.vocabulary.contexts g.context fun name => .subgroup id i (.context name))
  | streams {i : Nat} {g : Subgroup} (h : (s.state.group id).subgroups[i]? = some g) : SubgroupControl s id
      (number g.streams.toNat streamsMin.toNat 255 fun n => .subgroup id i (.streams n.toUInt8))
  | language {i : Nat} {g : Subgroup} (h : (s.state.group id).subgroups[i]? = some g) : SubgroupControl s id
      (input g.language fun t => .subgroup id i (.language t))

/-- What a widget of the view can be: one without a value, or one of the controls, of which those of a
group's details are in its own tab. -/
inductive Shown (s : Session) (w : Widget) : Prop
  | still (h : w.value? = none)
  | group {id : GroupId} (h : s.GroupControl id w)
  | param {id : GroupId} (ht : s.tab = .group id) (h : s.ParamControl id w)
  | subgroup {id : GroupId} (ht : s.tab = .group id) (h : s.SubgroupControl id w)

/-! ## What controls send -/

section

variable {s : Session} {id : GroupId} {w : Widget} {x : Choice} {e : Edit}

theorem sent_of_groupControl (h : s.GroupControl id w) (hs : w.Sends x e) : ∃ e', e = .group id e' := by
  cases h with
  | preset =>
    obtain ⟨_, -, rfl⟩ := sends_names hs
    exact ⟨_, rfl⟩
  | packing =>
    cases hs with
    | pick hm =>
      obtain ⟨_, -, he⟩ := List.mem_map.mp hm
      exact ⟨_, (Prod.mk.inj he).2.symm⟩
  | count => cases hs; exact ⟨_, rfl⟩
  | encryption => cases hs; exact ⟨_, rfl⟩
  | code => cases hs; exact ⟨_, rfl⟩

theorem sent_of_paramControl (h : s.ParamControl id w) (hs : w.Sends x e) : ∃ e', e = .custom id e' := by
  cases h with
  | interval _ =>
    cases hs with
    | pick hm =>
      obtain ⟨_, -, he⟩ := List.mem_map.mp hm
      exact ⟨_, (Prod.mk.inj he).2.symm⟩
  | framing _ =>
    cases hs with
    | pick hm =>
      obtain ⟨_, -, he⟩ := List.mem_map.mp hm
      exact ⟨_, (Prod.mk.inj he).2.symm⟩
  | octets _ => cases hs; exact ⟨_, rfl⟩
  | rtn _ => cases hs; exact ⟨_, rfl⟩
  | latency _ => cases hs; exact ⟨_, rfl⟩
  | delay _ => cases hs; exact ⟨_, rfl⟩

theorem sent_of_subgroupControl (h : s.SubgroupControl id w) (hs : w.Sends x e) : ∃ i e', e = .subgroup id i e' := by
  cases h with
  | context _ =>
    obtain ⟨_, -, rfl⟩ := sends_names hs
    exact ⟨_, _, rfl⟩
  | streams _ => cases hs; exact ⟨_, _, rfl⟩
  | language _ => cases hs; exact ⟨_, _, rfl⟩

end

/-! ## The parts of a view -/

def details (s : Session) (id : GroupId) : List Widget :=
  s.paramRows id ++ text "Subgroups" ::
    if (s.state.group id).subgroups.isEmpty then [text "No subgroups"]
    else subgroupColumns s.state.vocabulary.contexts id 0 (s.state.group id).subgroups

def presetRow (s : Session) (id : GroupId) : List Widget :=
  [text "Preset name:",
    names s.state.vocabulary.presets (s.state.group id).preset fun name => .group id (.preset name)]

theorem groupTab_eq (s : Session) (id : GroupId) : s.groupTab id = s.presetRow id ++ s.details id :=
  List.append_assoc _ _ _

theorem custom_view (s : State) (id : GroupId) : (s.view id).custom = s.inCustom id := by
  unfold State.view PresetView.of State.inCustom Group.isCustom Preset.isCustom
  cases Preset.find? (s.group id).preset <;> rfl

theorem subgroupColumns_eq (contexts : List String) (id : GroupId) (gs : List Subgroup) : ∀ first : Nat,
    subgroupColumns contexts id first gs =
      (gs.mapIdx fun i g => subgroupColumn contexts id (first + i) g).flatten := by
  induction gs with
  | nil => intro first; rfl
  | cons g gs ih =>
    intro first
    rw [List.mapIdx_cons, List.flatten_cons, subgroupColumns, ih]
    simp only [Nat.add_zero, Nat.add_assoc, Nat.add_comm 1]

section

variable {s : Session} {id : GroupId} {w : Widget}

theorem control_of_mem_summary (h : w ∈ s.summary id) : w.value? = none ∨ s.GroupControl id w := by
  revert w
  unfold summary
  simp only [List.forall_mem_cons]
  exact ⟨.inl rfl, .inl rfl, .inr .preset, .inl rfl, .inr .count, .inl rfl, .inr .packing, .inl rfl, .inr .encryption,
    .inl rfl, .inr .code, .inl rfl, fun _ h => by cases h⟩

theorem still_of_mem_deviceRow (h : w ∈ s.deviceRow) : w.value? = none := by
  revert w
  unfold deviceRow
  simp only [List.forall_mem_cons]
  exact ⟨rfl, rfl, rfl, rfl, fun _ h => by cases h⟩

theorem control_of_mem_presetRow (h : w ∈ s.presetRow id) : w.value? = none ∨ s.GroupControl id w := by
  revert w
  unfold presetRow
  simp only [List.forall_mem_cons]
  exact ⟨.inl rfl, .inr .preset, fun _ h => by cases h⟩

theorem control_of_mem_paramRows (h : w ∈ s.paramRows id) : w.value? = none ∨ s.ParamControl id w := by
  unfold paramRows at h
  simp only [custom_view] at h
  revert w
  cases hc : s.state.inCustom id with
  | false =>
    simp only [Bool.false_eq_true, ite_false, fixedRows, List.forall_mem_cons]
    exact ⟨.inl rfl, .inl rfl, .inl rfl, .inl rfl, .inl rfl, .inl rfl, .inl rfl, .inl rfl, .inl rfl, .inl rfl, .inl rfl,
      .inl rfl, .inl rfl, .inl rfl, fun _ h => by cases h⟩
  | true =>
    simp only [ite_true, customRows, List.forall_mem_cons]
    exact ⟨.inl rfl, .inr (.interval hc), .inl rfl, .inr (.framing hc), .inl rfl, .inr (.octets hc), .inl rfl,
      .inl rfl, .inl rfl, .inr (.rtn hc), .inl rfl, .inr (.latency hc), .inl rfl, .inr (.delay hc),
      fun _ h => by cases h⟩

theorem control_of_mem_column {i : Nat} {g : Subgroup} (hg : (s.state.group id).subgroups[i]? = some g)
    (h : w ∈ subgroupColumn s.state.vocabulary.contexts id i g) : w.value? = none ∨ s.SubgroupControl id w := by
  revert w
  unfold subgroupColumn
  simp only [List.forall_mem_cons]
  exact ⟨.inl rfl, .inl rfl, .inr (.context hg), .inl rfl, .inr (.streams hg), .inl rfl, .inr (.language hg),
    fun _ h => by cases h⟩

theorem control_of_mem_details (h : w ∈ s.details id) :
    w.value? = none ∨ s.ParamControl id w ∨ s.SubgroupControl id w := by
  rcases List.mem_append.mp h with h | h
  · exact (control_of_mem_paramRows h).imp_right .inl
  · rcases List.mem_cons.mp h with rfl | h
    · exact .inl rfl
    · split at h
      · exact .inl (List.mem_singleton.mp h ▸ rfl)
      · rw [subgroupColumns_eq, List.mem_flatten] at h
        obtain ⟨column, hc, hw⟩ := h
        obtain ⟨i, hi, rfl⟩ := List.mem_mapIdx.mp hc
        rw [Nat.zero_add] at hw
        exact (control_of_mem_column (List.getElem?_eq_getElem hi) hw).imp_right .inr

/-- **What a view is made of.** -/
theorem shown_of_mem_view (h : w ∈ s.view) : s.Shown w := by
  unfold view at h
  split at h
  · rcases List.mem_append.mp h with h | h
    · rcases List.mem_append.mp h with h | h
      · obtain ⟨id, -, h⟩ := List.mem_flatMap.mp h
        exact (control_of_mem_summary h).elim .still .group
      · exact .still (still_of_mem_deviceRow h)
    · rcases List.mem_cons.mp h with rfl | h
      · exact .still rfl
      · obtain ⟨n, -, rfl⟩ := List.mem_map.mp h
        exact .still rfl
  · rename_i id ht
    rw [groupTab_eq] at h
    rcases List.mem_append.mp h with h | h
    · exact (control_of_mem_presetRow h).elim .still .group
    · rcases control_of_mem_details h with h | h | h
      · exact .still h
      · exact .param ht h
      · exact .subgroup ht h

end

end Session

end Broadcast
