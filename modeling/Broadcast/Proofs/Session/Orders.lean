import Broadcast.Proofs.Device.Wire
import Broadcast.Proofs.State.CustomMode
import Broadcast.Session.Update

/-!
# What a session sends

Only the start button sends anything, and what it sends depends on the preset of
the first group alone. So of a whole run only the start messages and the edits of
that preset decide what the device gets.
-/

namespace Broadcast

open Transcript

theorem Channel.send_calls (c : Channel) (o : StartOrder) :
    ∃ t, Performs c.writer t (c.send o).channel.writer ∧ accepted t <+: presetLine o.preset ++ startLine ∧
      ((c.send o).error? = none ↔ accepted t = presetLine o.preset ++ startLine ∧ flushes t = 2) := by
  obtain ⟨t, k, f, hp, hs, he, -⟩ := sending_sendAll o.commands c
  rw [o.bytes_commands] at hs
  have hr : (c.send o).error? = f.map (.writing c.port) := he
  refine ⟨t, hp, by simpa using hs.accepted_prefix, ?_⟩
  rw [hr, Option.map_eq_none_iff, hs.flushes_eq, hs.fault_eq_none_iff]
  exact ⟨fun hk => ⟨by simpa using hs.accepted_of_done (hs.fault_eq_none_iff.mpr hk), hk⟩, fun h => h.2⟩

namespace Session

/-- The preset of the first group, the one the start button orders. -/
def preset (s : Session) : String := (s.state.group .first).preset

def wire (s : Session) : List UInt8 := (s.channel.map Channel.wire).getD []

def startedNote (name : String) : Note := ⟨some .info, "Broadcast started with preset " ++ name⟩

theorem startedNote_injective {a b : String} (h : startedNote a = startedNote b) : a = b := by
  have ht : "Broadcast started with preset " ++ a = "Broadcast started with preset " ++ b := congrArg Note.message h
  have hl := congrArg String.toList ht
  rw [String.toList_append, String.toList_append] at hl
  exact String.toList_injective (List.append_cancel_left hl)

theorem startedNote_ne_of_level {l : Level} (h : l ≠ .info) (text name : String) :
    startedNote name ≠ ⟨some l, text⟩ :=
  fun he => h (Option.some.inj (congrArg Note.level? he)).symm

theorem startedNote_ne_of_second {l : Option Level} {text : String} (h : text.toList[1]? ≠ some 'r') (name : String) :
    startedNote name ≠ ⟨l, text⟩ := by
  intro he
  have ht : "Broadcast started with preset " ++ name = text := congrArg Note.message he
  rw [← ht, String.toList_append] at h
  exact h rfl

/-! ## Messages that send nothing -/

theorem state_edit (s : Session) (e : Edit) : (s.edit e).state = s.state.act (.edit e) := by
  unfold edit
  simp only [State.act]
  cases s.state.apply e with
  | error err => rfl
  | ok c => simp only; split <;> rfl

theorem channel_edit (s : Session) (e : Edit) : (s.edit e).channel = s.channel := by
  unfold edit
  cases s.state.apply e with
  | error err => rfl
  | ok c => simp only; split <;> rfl

theorem second_editNote {s : State} {e : Edit} {text : String} (h : editNote? s e = some text) :
    text.toList[1]? ≠ some 'r' := by
  have hname : ∀ (id : GroupId) (rest : String), (id.name ++ rest).toList[1]? ≠ some 'r' := by
    intro id rest
    rw [String.toList_append]
    cases id <;> exact fun hr => absurd (Option.some.inj hr) (by decide)
  cases e with
  | group id e' =>
    cases e' with
    | preset name =>
      simp only [editNote?, Option.some.injEq, String.append_assoc] at h
      exact h ▸ hname id _
    | subgroupCount n =>
      simp only [editNote?, Option.some.injEq, String.append_assoc] at h
      exact h ▸ hname id _
    | packing _ => cases h
    | encryption _ => cases h
    | code _ => cases h
  | subgroup _ _ _ => cases h
  | custom _ _ => cases h

theorem edit_of_error {s : Session} {e : Edit} {err : EditError} (h : s.state.apply e = .error err) :
    s.edit e = s.note .warn err.message := by
  unfold edit
  rw [h]

theorem notes_edit_of_apply {s : Session} {e : Edit} {c : Change} (h : s.state.apply e = .ok c) :
    (s.edit e).notes = s.notes ++ ((editNote? c.state c.outcome.stored).map fun text => ⟨some .info, text⟩).toList := by
  unfold edit
  simp only [h]
  cases editNote? c.state c.outcome.stored with
  | none => exact (List.append_nil _).symm
  | some text => rfl

theorem notes_edit (s : Session) (e : Edit) :
    ∃ added, (s.edit e).notes = s.notes ++ added ∧ ∀ name, startedNote name ∉ added := by
  cases ha : s.state.apply e with
  | error err =>
    rw [edit_of_error ha]
    refine ⟨_, rfl, fun name hm => ?_⟩
    exact startedNote_ne_of_level (by decide) _ name (List.mem_singleton.mp hm)
  | ok c =>
    refine ⟨_, notes_edit_of_apply ha, fun name hm => ?_⟩
    obtain ⟨text, hn, ht⟩ := Option.map_eq_some_iff.mp (Option.mem_toList.mp hm)
    exact startedNote_ne_of_second (second_editNote hn) name ht.symm

theorem savePaths_frame [Wording] (s : Session) :
    s.savePaths.channel = s.channel ∧ s.savePaths.state = s.state ∧
      ∃ added, s.savePaths.notes = s.notes ++ added ∧ ∀ name, startedNote name ∉ added := by
  unfold savePaths
  simp only
  cases (s.store.update .paths s.files).error? with
  | none => exact ⟨rfl, rfl, [], (List.append_nil _).symm, fun _ hm => by cases hm⟩
  | some e =>
    refine ⟨rfl, rfl, _, rfl, fun name hm => ?_⟩
    exact startedNote_ne_of_level (by decide) _ name (List.mem_singleton.mp hm)

theorem notes_adopt (s : Session) (v : Vocabulary) (path : String) :
    ∃ text, (s.adopt v path).notes = s.notes ++ [⟨some .info, text⟩] ∧ text.toList[1]? ≠ some 'r' := by
  refine ⟨_, rfl, ?_⟩
  rw [String.append_assoc, String.append_assoc, String.append_assoc, String.append_assoc, String.toList_append]
  exact fun hr => absurd (Option.some.inj hr) (by decide)

theorem chooseHeader_frame [Wording] (s : Session) (path : String) :
    (s.chooseHeader path).channel = s.channel ∧ (s.chooseHeader path).preset = s.preset ∧
      ∃ added, (s.chooseHeader path).notes = s.notes ++ added ∧ ∀ name, startedNote name ∉ added := by
  unfold chooseHeader
  cases (Vocabulary.load s.files path).1 with
  | error e =>
    refine ⟨rfl, rfl, _, rfl, fun name hm => ?_⟩
    exact startedNote_ne_of_level (by decide) _ name (List.mem_singleton.mp hm)
  | ok v =>
    obtain ⟨hc, hs, added, hn, hf⟩ := (s.adopt v path).savePaths_frame
    obtain ⟨text, ha, ht⟩ := s.notes_adopt v path
    refine ⟨hc, ?_, ⟨some .info, text⟩ :: added, ?_, fun name hm => ?_⟩
    · unfold preset
      rw [hs]
      rfl
    · rw [hn, ha, List.append_assoc]
      rfl
    · rcases List.mem_cons.mp hm with h | h
      · exact startedNote_ne_of_second ht name h
      · exact hf name h

theorem update_frame [Wording] (s : Session) {m : Message} (hm : m ≠ .start) :
    (s.update m).channel = s.channel ∧
      ∃ added, (s.update m).notes = s.notes ++ added ∧ ∀ name, startedNote name ∉ added := by
  have hnone : ∃ added, s.notes = s.notes ++ added ∧ ∀ name, startedNote name ∉ added :=
    ⟨[], (List.append_nil _).symm, fun _ hm => by cases hm⟩
  cases m with
  | start => exact absurd rfl hm
  | showTab t => exact ⟨rfl, hnone⟩
  | browse => exact ⟨rfl, hnone⟩
  | edit e => exact ⟨s.channel_edit e, s.notes_edit e⟩
  | headerChosen path? =>
    cases path? with
    | none => exact ⟨rfl, hnone⟩
    | some path => exact ⟨(s.chooseHeader_frame path).1, (s.chooseHeader_frame path).2.2⟩

/-! ## The start message -/

theorem isReady_iff (o : StartOrder) : o.isReady = true ↔ o.preset ≠ "" ∧ o.preset ≠ notSet := by
  simp [StartOrder.isReady]

theorem start_of_unready {s : Session} (h : s.preset = "" ∨ s.preset = notSet) :
    s.start = s.note .warn "Select a preset for BIG0 before starting the broadcast" := by
  have hr : s.state.startOrder.isReady = false := by
    rw [← Bool.not_eq_true, isReady_iff]
    exact fun hr => h.elim hr.1 hr.2
  unfold start
  simp only [hr, Bool.not_false, ite_true]

theorem start_of_unconnected {s : Session} (h₁ : s.preset ≠ "") (h₂ : s.preset ≠ notSet) (hc : s.channel = none) :
    s.start = s.note .warn "No device connected; start command not sent" := by
  have hr : s.state.startOrder.isReady = true := (isReady_iff _).mpr ⟨h₁, h₂⟩
  unfold start
  simp only [hr, Bool.not_true, Bool.false_eq_true, ite_false, hc]

theorem start_of_idle {s : Session} (h : s.preset = "" ∨ s.preset = notSet ∨ s.channel = none) :
    s.start.channel = s.channel ∧
      ∃ added, s.start.notes = s.notes ++ added ∧ ∀ name, startedNote name ∉ added := by
  have hwarn : ∀ text name, startedNote name ∉ [(⟨some .warn, text⟩ : Note)] := fun text name hm =>
    startedNote_ne_of_level (by decide) text name (List.mem_singleton.mp hm)
  by_cases hp : s.preset = "" ∨ s.preset = notSet
  · rw [start_of_unready hp]
    exact ⟨rfl, _, rfl, hwarn _⟩
  · simp only [not_or] at hp
    rw [start_of_unconnected hp.1 hp.2 ((h.resolve_left hp.1).resolve_left hp.2)]
    exact ⟨rfl, _, rfl, hwarn _⟩

theorem start_of_ready {s : Session} (h₁ : s.preset ≠ "") (h₂ : s.preset ≠ notSet) {c : Channel}
    (hc : s.channel = some c) :
    s.start.channel = some (c.send s.state.startOrder).channel ∧
      s.start.notes = s.notes ++ [match (c.send s.state.startOrder).error? with
        | none => startedNote s.preset
        | some e => ⟨some .error, e.message⟩] := by
  have hr : s.state.startOrder.isReady = true := (isReady_iff _).mpr ⟨h₁, h₂⟩
  unfold start
  simp only [hr, Bool.not_true, Bool.false_eq_true, ite_false, hc]
  cases (c.send s.state.startOrder).error? <;> exact ⟨rfl, rfl⟩

/-- The calls `t` are all that handling a message does to the device. -/
structure Handles [Wording] (s : Session) (m : Message) (t : Transcript) : Prop where
  performs : match s.channel, (s.update m).channel with
    | some c, some d => Performs c.writer t d.writer ∧ d.port = c.port
    | none, none => t = []
    | _, _ => False
  wire : (s.update m).wire = s.wire ++ accepted t
  idle : m ≠ .start ∨ s.preset = "" ∨ s.preset = notSet ∨ s.channel = none → t = []
  accepted_prefix : accepted t <+: presetLine s.preset ++ startLine
  /-- The log says that the broadcast was started exactly when the device has got all of the order. -/
  started : ∀ name, startedNote name ∈ (s.update m).notes.drop s.notes.length ↔
    name = s.preset ∧ accepted t = presetLine s.preset ++ startLine ∧ flushes t = 2

theorem presetLine_ne_nil (name : String) : presetLine name ++ startLine ≠ [] := by
  rw [presetLine_eq]; simp

theorem handles_nil [Wording] {s : Session} {m : Message} (hc : (s.update m).channel = s.channel)
    (hn : ∃ added, (s.update m).notes = s.notes ++ added ∧ ∀ name, startedNote name ∉ added) :
    s.Handles m [] := by
  obtain ⟨added, hn, hf⟩ := hn
  refine ⟨?_, ?_, fun _ => rfl, List.nil_prefix, fun name => ?_⟩
  · rw [hc]
    cases s.channel with
    | none => rfl
    | some c => exact ⟨.nil _, rfl⟩
  · unfold wire
    rw [hc, accepted_nil, List.append_nil]
  · rw [hn, List.drop_left]
    exact iff_of_false (hf name) fun h => presetLine_ne_nil _ h.2.1.symm

theorem handles_start [Wording] {s : Session} (h₁ : s.preset ≠ "") (h₂ : s.preset ≠ notSet) {c : Channel}
    (hc : s.channel = some c) : ∃ t, s.Handles .start t := by
  obtain ⟨t, hp, hpre, hok⟩ := c.send_calls s.state.startOrder
  obtain ⟨hch, hn⟩ := start_of_ready h₁ h₂ hc
  have hch : (s.update .start).channel = some (c.send s.state.startOrder).channel := hch
  have hn : (s.update .start).notes = _ := hn
  refine ⟨t, ?_, ?_, ?_, hpre, fun name => ?_⟩
  · rw [hc, hch]
    exact ⟨hp, c.port_send _⟩
  · unfold wire
    rw [hc, hch]
    exact hp.wire.1
  · rintro (h | h | h | h)
    · exact absurd rfl h
    · exact absurd h h₁
    · exact absurd h h₂
    · rw [hc] at h; cases h
  · rw [hn, List.drop_left, List.mem_singleton]
    cases he : (c.send s.state.startOrder).error? with
    | none =>
      simp only
      exact ⟨fun h => ⟨startedNote_injective h, hok.mp he⟩, fun h => congrArg startedNote h.1⟩
    | some e =>
      simp only
      refine iff_of_false (startedNote_ne_of_level (by decide) _ name) fun h => ?_
      rw [hok.mpr h.2] at he; cases he

theorem handles [Wording] (s : Session) (m : Message) : ∃ t, s.Handles m t := by
  by_cases hm : m = .start
  · subst hm
    by_cases h : s.preset = "" ∨ s.preset = notSet ∨ s.channel = none
    · exact ⟨[], handles_nil (start_of_idle h).1 (start_of_idle h).2⟩
    · simp only [not_or] at h
      obtain ⟨c, hc⟩ := Option.ne_none_iff_exists'.mp h.2.2
      exact handles_start h.1 h.2.1 hc
  · exact ⟨[], handles_nil (s.update_frame hm).1 (s.update_frame hm).2⟩

end Session

/-! ## Whole runs -/

/-- The messages that decide what is sent. -/
def Message.isSignal : Message → Bool
  | .start => true
  | .edit (.group .first (.preset _)) => true
  | _ => false

namespace Session

def presetAfter (name : String) : Message → String
  | .edit (.group .first (.preset new)) => new
  | _ => name

def orderOf (name : String) (m : Message) : List StartOrder :=
  if m = .start ∧ name ≠ "" ∧ name ≠ notSet then [⟨name⟩] else []

def orders (name : String) : List Message → List StartOrder
  | [] => []
  | m :: ms => orderOf name m ++ orders (presetAfter name m) ms

theorem preset_act (s : State) (e : Edit) :
    ((s.act (.edit e)).group .first).preset = presetAfter (s.group .first).preset (.edit e) := by
  rcases s.act_mode (.edit e) .first with ⟨name, he, -, hg⟩ | ⟨e', he, -, -, hg⟩ | ⟨-, hp, -⟩
  · cases he
    rw [hg]; rfl
  · cases he
    rw [hg]; rfl
  · rw [hp]
    unfold presetAfter
    split
    · rename_i new he
      cases he
      rw [State.group_act_preset] at hp
      exact hp.symm
    · rfl

theorem preset_start (s : Session) : s.start.preset = s.preset := by
  unfold start
  simp only
  split
  · rfl
  · split
    · rfl
    · split <;> rfl

theorem preset_update [Wording] (s : Session) (m : Message) : (s.update m).preset = presetAfter s.preset m := by
  cases m with
  | showTab t => rfl
  | browse => rfl
  | start => exact s.preset_start
  | edit e =>
    show ((s.edit e).state.group .first).preset = _
    rw [state_edit]
    exact preset_act s.state e
  | headerChosen path? =>
    cases path? with
    | none => rfl
    | some path => exact (s.chooseHeader_frame path).2.1

theorem channel_update [Wording] (s : Session) (m : Message) :
    (s.update m).channel = s.channel.map fun c => c.after (orderOf s.preset m) := by
  have hidle : orderOf s.preset m = [] → s.channel = s.channel.map fun c => c.after (orderOf s.preset m) := by
    intro h
    rw [h]
    exact Option.map_id'.symm
  by_cases hm : m = .start
  · subst hm
    by_cases h : s.preset = "" ∨ s.preset = notSet ∨ s.channel = none
    · have hs : (s.update .start).channel = s.channel := (start_of_idle h).1
      rw [hs]
      rcases h with h | h | h
      · exact hidle (if_neg fun hr => hr.2.1 h)
      · exact hidle (if_neg fun hr => hr.2.2 h)
      · rw [h]; rfl
    · simp only [not_or] at h
      obtain ⟨c, hc⟩ := Option.ne_none_iff_exists'.mp h.2.2
      have hs : (s.update .start).channel = _ := (start_of_ready h.1 h.2.1 hc).1
      have ho : orderOf s.preset .start = [⟨s.preset⟩] := if_pos ⟨rfl, h.1, h.2.1⟩
      rw [hs, ho, hc]
      rfl
  · rw [(s.update_frame hm).1]
    exact hidle (if_neg fun hr => hm hr.1)

/-- **A run sends one order for each start message that finds a preset.** -/
theorem channel_run [Wording] (s : Session) (ms : List Message) :
    (s.run ms).channel = s.channel.map fun c => c.after (orders s.preset ms) := by
  induction ms generalizing s with
  | nil => exact Option.map_id'.symm
  | cons m ms ih =>
    have hrun : s.run (m :: ms) = (s.update m).run ms := rfl
    rw [hrun, ih, channel_update, preset_update, Option.map_map]
    refine congrArg (Option.map · s.channel) (funext fun c => ?_)
    rw [orders, Channel.after_append]
    rfl

theorem orders_filter (ms : List Message) : ∀ name, orders name (ms.filter Message.isSignal) = orders name ms := by
  induction ms with
  | nil => intro name; rfl
  | cons m ms ih =>
    intro name
    cases hm : m.isSignal with
    | true => rw [List.filter_cons_of_pos hm, orders, ih, orders]
    | false =>
      have hp : presetAfter name m = name := by
        unfold presetAfter
        split
        · cases hm
        · rfl
      have ho : orderOf name m = [] := if_neg fun hr => by rw [hr.1] at hm; cases hm
      rw [List.filter_cons_of_neg (by rw [hm]; exact Bool.false_ne_true), ih, orders, ho, hp, List.nil_append]

end Session

namespace Channel

theorem writer_sendAll_congr (commands : List Command) : ∀ {c d : Channel}, c.writer = d.writer →
    (c.sendAll commands).channel.writer = (d.sendAll commands).channel.writer := by
  induction commands with
  | nil => intro c d h; exact h
  | cons command commands ih =>
    intro c d h
    rcases hs : c.writer.send command.bytes with ⟨w, _ | f⟩
    · rw [sendAll_of_sent hs, sendAll_of_sent (h ▸ hs)]
      exact ih rfl
    · rw [sendAll_of_fault hs, sendAll_of_fault (h ▸ hs)]

theorem writer_after_congr (os : List StartOrder) : ∀ {c d : Channel}, c.writer = d.writer →
    (c.after os).writer = (d.after os).writer := by
  induction os with
  | nil => intro c d h; exact h
  | cons o os ih => intro c d h; exact ih (writer_sendAll_congr o.commands h)

end Channel

/-- **What the start button puts on the wire.** A message other than start sends nothing, and start sends
a front part of the two lines for the preset of the first group. So runs that agree in these messages and
in the edits of that preset send the same. -/
theorem Session.wire_run [Wording] (s : Session) (ms : List Message) :
    (∀ m, ∃ t, (s.run ms).Handles m t) ∧
      ∀ (r : Session) (ns : List Message), r.channel.map Channel.writer = s.channel.map Channel.writer →
        r.preset = s.preset → ns.filter Message.isSignal = ms.filter Message.isSignal →
        (r.run ns).wire = (s.run ms).wire := by
  refine ⟨(s.run ms).handles, fun r ns hw hp hf => ?_⟩
  have ho : orders r.preset ns = orders s.preset ms := by
    rw [← orders_filter ns, hf, orders_filter, hp]
  unfold wire
  rw [channel_run, channel_run, ho]
  cases hr : r.channel with
  | none =>
    rw [hr] at hw
    rw [Option.map_eq_none_iff.mp hw.symm]
  | some c =>
    rw [hr] at hw
    obtain ⟨d, hd, hcd⟩ := Option.map_eq_some_iff.mp hw.symm
    rw [hd]
    exact congrArg Writer.wire (Channel.writer_after_congr _ hcd.symm)

section

attribute [local instance] Wording.plain

/-- The device takes ten bytes of the first order and all of the second one. The other run is on a port of another
name and goes its own way with the second group, a code and the tabs. -/
theorem Session.wire_run_elsewhere :
    ∃ (s r : Session) (ms ns : List Message),
      s.wire = [] ∧ s.port? ≠ r.port? ∧ (s.run ms).state.view .second ≠ (r.run ns).state.view .second ∧
      (s.run ms).wire = "bct preset".toUTF8.toList ++ (presetLine "16_2_1" ++ startLine) ∧
      (r.run ns).wire = (s.run ms).wire := by
  let w : Writer := { writes := [.upTo 10, .fault .timedOut] }
  let s : Session := opened ⟨"bct.toml", {}⟩ ⟨[], [], []⟩ (.fresh .builtIn) (some ⟨"tty0", w⟩) ""
  let r : Session := opened ⟨"bct.toml", {}⟩ ⟨[], [], []⟩ (.fresh .builtIn) (some ⟨"tty1", w⟩) ""
  let ms : List Message := [.edit (.group .first (.preset "16_2_1")), .start, .start]
  let ns : List Message := [.edit (.group .second (.preset "24_2_2")), .edit (.group .first (.preset "16_2_1")),
    .showTab (.group .second), .start, .edit (.group .first (.code "key")), .start]
  refine ⟨s, r, ms, ns, rfl, by decide +kernel, by decide +kernel, by decide +kernel, ?_⟩
  exact (s.wire_run ms).2 r ns rfl rfl rfl

end

end Broadcast
