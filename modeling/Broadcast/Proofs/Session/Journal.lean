import Broadcast.Proofs.Session.ChosenHeader
import Broadcast.Proofs.Session.Controls

/-!
# What a session notes

Each message adds its notes at the end of the log and nothing else changes there.
Which notes these are depends on how the message went: everything that fails or is
refused is told with its reason, and of what goes well the presets, the numbers of
subgroups, the orders sent and the headers loaded.
-/

namespace Broadcast.Session

def acceptedNote? : Edit → Option Note
  | .group id (.preset name) =>
    some ⟨some .info, id.name ++ " preset: " ++ name ++ " (" ++
      (if name ∈ Preset.catalogNames then "catalog" else "custom") ++ ")"⟩
  | .group id (.subgroupCount n) => some ⟨some .info, id.name ++ " subgroups: " ++ Nat.repr n.toNat⟩
  | _ => none

/-- The notes about a message, for each way it can go. -/
inductive Tells [Wording] (s : Session) : Message → List Note → Prop
  | showTab (t : Tab) : Tells s (.showTab t) []
  | browse : Tells s .browse []
  | accepted {e : Edit} {c : Change} : s.state.apply e = .ok c → Tells s (.edit e) (acceptedNote? e).toList
  | refused {e : Edit} {err : EditError} : s.state.apply e = .error err →
      Tells s (.edit e) [⟨some .warn, err.message⟩]
  | notReady : s.preset = "" ∨ s.preset = notSet →
      Tells s .start [⟨some .warn, "Select a preset for BIG0 before starting the broadcast"⟩]
  | noDevice : s.preset ≠ "" → s.preset ≠ notSet → s.channel = none →
      Tells s .start [⟨some .warn, "No device connected; start command not sent"⟩]
  | started {c : Channel} : s.preset ≠ "" → s.preset ≠ notSet → s.channel = some c →
      (c.send ⟨s.preset⟩).error? = none → Tells s .start [startedNote s.preset]
  | unsent {c : Channel} {e : DeviceError} : s.preset ≠ "" → s.preset ≠ notSet → s.channel = some c →
      (c.send ⟨s.preset⟩).error? = some e → Tells s .start [⟨some .error, e.message⟩]
  | nothingChosen : Tells s (.headerChosen none) []
  | unreadable {path : String} {fault : Fault} : s.files.readText path = .error fault →
      Tells s (.headerChosen (some path)) [⟨some .warn, (HeaderError.unreadable path fault).message⟩]
  | loaded {path text : String} : s.files.readText path = .ok text →
      ((s.store.withHeader path).update .paths s.files).error? = none →
      Tells s (.headerChosen (some path)) [loadedNote (.ofText text) path]
  | unsaved {path text : String} {e : ConfigError} : s.files.readText path = .ok text →
      ((s.store.withHeader path).update .paths s.files).error? = some e →
      Tells s (.headerChosen (some path)) [loadedNote (.ofText text) path, unsavedNote e]

/-! ## One message -/

theorem editNote?_of_apply {s : State} {e : Edit} {c : Change} (h : s.apply e = .ok c) :
    (editNote? c.state c.outcome.stored).map (fun text => ⟨some .info, text⟩) = acceptedNote? e := by
  obtain ⟨g, he, ho, hg, -⟩ := State.apply_cases h
  rw [ho]
  cases e with
  | subgroup id i e' => cases e' <;> rfl
  | custom id e' => cases e' <;> rfl
  | group id e' =>
    cases e' with
    | subgroupCount n => rfl
    | packing p => rfl
    | encryption on => rfl
    | code text => rfl
    | preset name =>
      cases he
      have hg : c.state.group id = (s.group id).withPreset name := hg
      have hmode : (c.state.view id).custom = Preset.isCustom name := by
        rw [custom_view, State.inCustom, hg, Group.isCustom_withPreset]
      simp only [Edit.normal, GroupEdit.normal, editNote?, acceptedNote?, hmode, Option.map_some]
      by_cases hc : name ∈ Preset.catalogNames
      · have hm : Preset.isCustom name = false := by
          rw [← Bool.not_eq_true, Preset.isCustom_iff]
          exact not_not_intro hc
        rw [hm, if_pos hc, if_neg Bool.false_ne_true]
      · rw [Preset.isCustom_iff.mpr hc, if_neg hc, if_pos rfl]

theorem notes_of_tells [Wording] {s : Session} {m : Message} {added : List Note} (h : s.Tells m added) :
    (s.update m).notes = s.notes ++ added := by
  cases h with
  | showTab t => exact (List.append_nil _).symm
  | browse => exact (List.append_nil _).symm
  | nothingChosen => exact (List.append_nil _).symm
  | accepted ha => exact editNote?_of_apply ha ▸ notes_edit_of_apply ha
  | refused ha => exact congrArg notes (edit_of_error ha)
  | notReady hp => exact congrArg notes (start_of_unready hp)
  | noDevice h₁ h₂ hc => exact congrArg notes (start_of_unconnected h₁ h₂ hc)
  | started h₁ h₂ hc he =>
    have hn := (start_of_ready h₁ h₂ hc).2
    have he : (Channel.send _ s.state.startOrder).error? = none := he
    rw [he] at hn
    exact hn
  | unsent h₁ h₂ hc he =>
    have hn := (start_of_ready h₁ h₂ hc).2
    have he : (Channel.send _ s.state.startOrder).error? = some _ := he
    rw [he] at hn
    exact hn
  | unreadable hr => exact congrArg notes (chooseHeader_of_unreadable hr)
  | loaded hr he =>
    have hn := notes_chooseHeader hr
    rw [saveError?_of_read hr, he] at hn
    exact hn
  | unsaved hr he =>
    have hn := notes_chooseHeader hr
    rw [saveError?_of_read hr, he] at hn
    exact hn

theorem exists_tells_start [Wording] (s : Session) : ∃ added, s.Tells .start added := by
  by_cases h₁ : s.preset = ""
  · exact ⟨_, .notReady (.inl h₁)⟩
  by_cases h₂ : s.preset = notSet
  · exact ⟨_, .notReady (.inr h₂)⟩
  cases hc : s.channel with
  | none => exact ⟨_, .noDevice h₁ h₂ hc⟩
  | some c =>
    cases he : (c.send ⟨s.preset⟩).error? with
    | none => exact ⟨_, .started h₁ h₂ hc he⟩
    | some e => exact ⟨_, .unsent h₁ h₂ hc he⟩

theorem exists_tells [Wording] (s : Session) (m : Message) : ∃ added, s.Tells m added := by
  cases m with
  | showTab t => exact ⟨_, .showTab t⟩
  | browse => exact ⟨_, .browse⟩
  | start => exact s.exists_tells_start
  | edit e =>
    cases ha : s.state.apply e with
    | error err => exact ⟨_, .refused ha⟩
    | ok c => exact ⟨_, .accepted ha⟩
  | headerChosen path? =>
    cases path? with
    | none => exact ⟨_, .nothingChosen⟩
    | some path =>
      cases hr : s.files.readText path with
      | error fault => exact ⟨_, .unreadable hr⟩
      | ok text =>
        cases he : ((s.store.withHeader path).update .paths s.files).error? with
        | none => exact ⟨_, .loaded hr he⟩
        | some e => exact ⟨_, .unsaved hr he⟩

/-- A message adds what is told about it, and nothing else. -/
theorem tells_iff [Wording] {s : Session} {m : Message} {added : List Note} :
    s.Tells m added ↔ (s.update m).notes = s.notes ++ added := by
  refine ⟨notes_of_tells, fun h => ?_⟩
  obtain ⟨told, ht⟩ := s.exists_tells m
  rwa [← List.append_cancel_left ((notes_of_tells ht).symm.trans h)]

/-! ## Runs -/

inductive Recounts [Wording] : Session → List (Files × Message) → List (List Note) → Prop
  | nil {s : Session} : Recounts s [] []
  | cons {s : Session} {fs : Files} {m : Message} {es : List (Files × Message)} {added : List Note}
      {later : List (List Note)} : Tells { s with files := fs } m added →
      Recounts ({ s with files := fs }.update m) es later → Recounts s ((fs, m) :: es) (added :: later)

/-- **The log of a session only grows at its end**, with each message by exactly what is told about it. -/
theorem notes_recounted [Wording] (s : Session) (es : List (Files × Message)) :
    ∃ told, (∀ other, s.Recounts es other ↔ other = told) ∧
      ∀ n, (s.runAmid (es.take n)).notes = s.notes ++ (told.take n).flatten := by
  induction es generalizing s with
  | nil =>
    refine ⟨[], fun other => ⟨fun h => ?_, fun h => h ▸ .nil⟩, fun n => ?_⟩
    · cases h; rfl
    · rw [List.take_nil, List.take_nil]
      exact (List.append_nil _).symm
  | cons e es ih =>
    obtain ⟨fs, m⟩ := e
    obtain ⟨added, ha⟩ := exists_tells { s with files := fs } m
    obtain ⟨later, hlater, hnotes⟩ := ih ({ s with files := fs }.update m)
    have hn : ({ s with files := fs }.update m).notes = s.notes ++ added := notes_of_tells ha
    refine ⟨added :: later, fun other => ⟨fun h => ?_, fun h => h ▸ .cons ha ((hlater later).mpr rfl)⟩, fun n => ?_⟩
    · cases h with
      | cons ha' hr =>
        rw [(hlater _).mp hr, List.append_cancel_left ((tells_iff.mp ha').symm.trans hn)]
    · cases n with
      | zero => exact (List.append_nil _).symm
      | succ n =>
        rw [List.take_succ_cons, List.take_succ_cons, runAmid_cons, hnotes, hn, List.append_assoc, List.flatten_cons]

end Broadcast.Session
