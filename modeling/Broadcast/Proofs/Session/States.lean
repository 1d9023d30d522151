import Broadcast.Proofs.Session.Orders
import Broadcast.Proofs.State.WellFormed

/-!
# The state of a session

A session changes its state through edits and through the headers that can be
read. So what a session shows was reached by a run of its state. The files do
not belong to the session alone: before each message they may have become
anything.
-/

namespace Broadcast

theorem Vocabulary.eq_ofText_of_load {fs : Files} {path : String} {v : Vocabulary} (h : (load fs path).1 = .ok v) :
    ∃ text, fs.readText path = .ok text ∧ v = ofText text := by
  unfold load at h
  split at h
  · cases h
  · rename_i text ht
    cases h
    exact ⟨text, ht, rfl⟩

namespace Session

/-- Messages, each with what the files have become before it. -/
def runAmid [Wording] (s : Session) (es : List (Files × Message)) : Session :=
  es.foldl (fun s e => { s with files := e.1 }.update e.2) s

theorem runAmid_cons [Wording] (s : Session) (fs : Files) (m : Message) (es : List (Files × Message)) :
    s.runAmid ((fs, m) :: es) = ({ s with files := fs }.update m).runAmid es := rfl

theorem exists_runAmid_eq_run [Wording] (ms : List Message) :
    ∀ s : Session, ∃ es : List (Files × Message), es.map Prod.snd = ms ∧ s.runAmid es = s.run ms := by
  induction ms with
  | nil => exact fun s => ⟨[], rfl, rfl⟩
  | cons m ms ih =>
    intro s
    obtain ⟨es, hms, hrun⟩ := ih (s.update m)
    exact ⟨(s.files, m) :: es, congrArg (m :: ·) hms, hrun⟩

/-! ## What a message does to the state -/

def act? (s : Session) : Message → Option Action
  | .edit e => some (.edit e)
  | .headerChosen (some path) => ((Vocabulary.load s.files path).1.toOption).map .names
  | _ => none

theorem act?_cases {s : Session} {m : Message} {a : Action} (h : s.act? m = some a) :
    (∃ e, m = .edit e ∧ a = .edit e) ∨
      ∃ path v, m = .headerChosen (some path) ∧ (Vocabulary.load s.files path).1 = .ok v ∧ a = .names v := by
  cases m with
  | showTab t => cases h
  | start => cases h
  | browse => cases h
  | edit e => cases h; exact .inl ⟨e, rfl, rfl⟩
  | headerChosen path? =>
    cases path? with
    | none => cases h
    | some path =>
      simp only [act?] at h
      cases hl : (Vocabulary.load s.files path).1 with
      | error e => rw [hl] at h; cases h
      | ok v => rw [hl] at h; cases h; exact .inr ⟨path, v, rfl, hl, rfl⟩

theorem state_start (s : Session) : s.start.state = s.state := by
  unfold start
  simp only
  split
  · rfl
  · split
    · rfl
    · split <;> rfl

theorem state_chooseHeader [Wording] (s : Session) (path : String) :
    (s.chooseHeader path).state = s.state.run (s.act? (.headerChosen (some path))).toList := by
  simp only [chooseHeader, act?]
  cases (Vocabulary.load s.files path).1 with
  | error e => rfl
  | ok v => exact (s.adopt v path).savePaths_frame.2.1

theorem state_update [Wording] (s : Session) (m : Message) : (s.update m).state = s.state.run (s.act? m).toList := by
  cases m with
  | showTab t => rfl
  | browse => rfl
  | start => exact s.state_start
  | edit e => exact s.state_edit e
  | headerChosen path? =>
    cases path? with
    | none => rfl
    | some path => exact s.state_chooseHeader path

def actions [Wording] (s : Session) : List (Files × Message) → List Action
  | [] => []
  | (fs, m) :: es =>
    (act? { s with files := fs } m).toList ++ ({ s with files := fs }.update m).actions es

theorem state_runAmid [Wording] (es : List (Files × Message)) : ∀ s : Session,
    (s.runAmid es).state = s.state.run (s.actions es) := by
  induction es with
  | nil => intro s; rfl
  | cons e es ih =>
    intro s
    rw [runAmid_cons, ih, state_update, actions, State.run_append]

/-- The sessions a window can come to, from one that was begun with nothing chosen. -/
def IsReached [Wording] (s : Session) : Prop :=
  ∃ store files v channel greeting es, s = (opened store files (.fresh v) channel greeting).runAmid es

theorem isReached_run [Wording] (store : Store) (files : Files) (v : Vocabulary) (channel : Option Channel)
    (greeting : String)
    (ms : List Message) : ((opened store files (.fresh v) channel greeting).run ms).IsReached := by
  obtain ⟨es, -, hrun⟩ := exists_runAmid_eq_run ms (opened store files (.fresh v) channel greeting)
  exact ⟨store, files, v, channel, greeting, es, hrun.symm⟩

theorem IsReached.wellFormed [Wording] {s : Session} (h : s.IsReached) (id : GroupId) :
    (s.state.group id).WellFormed := by
  obtain ⟨store, files, v, channel, greeting, es, rfl⟩ := h
  rw [state_runAmid]
  exact (State.run_fresh_wellFormed v _ id).1

end Session

end Broadcast
