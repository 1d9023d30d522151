import Broadcast.Proofs.Session.Opening
import Broadcast.Proofs.Session.States
import Broadcast.Proofs.Settings.FailedWrites
import Broadcast.Proofs.Settings.Kept
import Broadcast.Proofs.State.Independence

/-!
# Starting again

A session keeps its settings in a file and its names in a header, and changes them
only together: a header that cannot be read changes neither. So whenever the
program is started again it finds the settings and the names that the session has,
as long as nobody else touches these files.
-/

namespace Broadcast

namespace Vocabulary

theorem loadOrBuiltIn_eq (fs : Files) (path : String) :
    (loadOrBuiltIn fs path).1 = (fs.readText path).toOption.elim builtIn ofText := by
  unfold loadOrBuiltIn load
  cases fs.readText path <;> rfl

end Vocabulary

theorem Store.store_update (s : Store) (x : Section) (fs : Files) : (s.update x fs).store = s := by
  unfold update
  split
  · rfl
  · split <;> rfl

theorem Store.replace_of_load {s : Store} {fs : Files} (hw : s.writesOnLoad fs = true)
    (hok : (s.load fs).error? = none) : ∃ text, fs.replace s.path text = ((s.load fs).files, none) := by
  rcases s.load_cases fs with ⟨hn, -⟩ | ⟨-, hf, he⟩
  · rw [hw] at hn
    cases hn
  · rw [hok] at he
    exact ⟨_, Prod.ext hf.symm (Option.map_eq_none_iff.mp he.symm)⟩

def Store.withHeader (s : Store) (header : String) : Store :=
  { s with settings := { s.settings with paths := { s.settings.paths with header := header } } }

namespace Session

/-! ## Points of a run -/

def points [Wording] (s : Session) : List (Files × Message) → List Session
  | [] => [s]
  | (fs, m) :: es => s :: { s with files := fs } :: points ({ s with files := fs }.update m) es

theorem self_mem_points [Wording] (s : Session) (es : List (Files × Message)) : s ∈ s.points es := by
  cases es <;> exact List.mem_cons_self

theorem runAmid_mem_points [Wording] (before after : List (Files × Message)) : ∀ s : Session,
    s.runAmid before ∈ s.points (before ++ after) := by
  induction before with
  | nil => exact fun s => s.self_mem_points after
  | cons e before ih => exact fun s => List.mem_cons_of_mem _ (List.mem_cons_of_mem _ (ih _))

def header? : Message → Option String
  | .headerChosen path? => path?
  | _ => none

/-- The paths at which headers are looked for: first the one in the settings, then those that are chosen. -/
def tried (s : Session) (es : List (Files × Message)) : List String :=
  s.headerPath :: es.filterMap fun e => header? e.2

def saveError? (s : Session) : Message → Option ConfigError
  | .headerChosen (some path) =>
    match (Vocabulary.load s.files path).1 with
    | .error _ => none
    | .ok v => ((s.adopt v path).store.update .paths s.files).error?
  | _ => none

/-- Nobody else changes the file with the settings, and whenever the session writes it this succeeds. -/
def KeepsFile [Wording] (s : Session) : List (Files × Message) → Prop
  | [] => True
  | (fs, m) :: es =>
    fs.readText s.store.path = s.files.readText s.store.path ∧
      (∀ f, saveError? { s with files := fs } m ≠ some (.access f)) ∧
      ({ s with files := fs }.update m).KeepsFile es

/-- What can be read at the paths of headers stays the same all the time. -/
def KeepsHeaders [Wording] (s : Session) (es : List (Files × Message)) : Prop :=
  ∀ path ∈ s.tried es, ∀ t ∈ s.points es, (t.files.readText path).toOption = (s.files.readText path).toOption

/-- A program that is started now loads the settings and the names that the session has, and writes nothing. -/
structure Restarts (s : Session) : Prop where
  load : Store.load ⟨s.store.path, {}⟩ s.files = ⟨s.store, s.files, [], none⟩
  names : (Vocabulary.loadOrBuiltIn s.files
    (Store.load ⟨s.store.path, {}⟩ s.files).store.settings.paths.header).1 = s.state.vocabulary

/-! ## What a message does -/

theorem savePaths_eq [Wording] (s : Session) :
    s.savePaths.store = s.store ∧ s.savePaths.files = (s.store.update .paths s.files).files := by
  unfold savePaths
  simp only
  split
  · exact ⟨s.store.store_update .paths s.files, rfl⟩
  · exact ⟨s.store.store_update .paths s.files, rfl⟩

theorem edit_eq (s : Session) (e : Edit) :
    (s.edit e).store = s.store ∧ (s.edit e).files = s.files ∧ (s.edit e).state.vocabulary = s.state.vocabulary := by
  have hrest : (s.edit e).store = s.store ∧ (s.edit e).files = s.files := by
    unfold edit
    split
    · exact ⟨rfl, rfl⟩
    · split <;> exact ⟨rfl, rfl⟩
  exact ⟨hrest.1, hrest.2, (congrArg State.vocabulary (s.state_edit e)).trans (s.state.vocabulary_act (.edit e))⟩

theorem start_eq (s : Session) :
    s.start.store = s.store ∧ s.start.files = s.files ∧ s.start.state.vocabulary = s.state.vocabulary := by
  have hrest : s.start.store = s.store ∧ s.start.files = s.files := by
    unfold start
    simp only
    split
    · exact ⟨rfl, rfl⟩
    · split
      · exact ⟨rfl, rfl⟩
      · split <;> exact ⟨rfl, rfl⟩
  exact ⟨hrest.1, hrest.2, congrArg State.vocabulary s.state_start⟩

theorem update_cases [Wording] (s : Session) (m : Message) :
    ((s.update m).store = s.store ∧ (s.update m).files = s.files ∧
        (s.update m).state.vocabulary = s.state.vocabulary) ∧ s.saveError? m = none ∨
      ∃ chosen text, header? m = some chosen ∧ s.files.readText chosen = .ok text ∧
        (s.update m).store = s.store.withHeader chosen ∧
        (s.update m).files = ((s.store.withHeader chosen).update .paths s.files).files ∧
        (s.update m).state.vocabulary = .ofText text ∧
        s.saveError? m = ((s.store.withHeader chosen).update .paths s.files).error? := by
  cases m with
  | showTab t => exact .inl ⟨⟨rfl, rfl, rfl⟩, rfl⟩
  | browse => exact .inl ⟨⟨rfl, rfl, rfl⟩, rfl⟩
  | start => exact .inl ⟨s.start_eq, rfl⟩
  | edit e => exact .inl ⟨s.edit_eq e, rfl⟩
  | headerChosen path? =>
    cases path? with
    | none => exact .inl ⟨⟨rfl, rfl, rfl⟩, rfl⟩
    | some chosen =>
      simp only [Session.update, chooseHeader, saveError?]
      cases hl : (Vocabulary.load s.files chosen).1 with
      | error e => exact .inl ⟨⟨rfl, rfl, rfl⟩, rfl⟩
      | ok v =>
        obtain ⟨text, ht, rfl⟩ := Vocabulary.eq_ofText_of_load hl
        obtain ⟨hstore, hfiles⟩ := (s.adopt (.ofText text) chosen).savePaths_eq
        exact .inr ⟨chosen, text, rfl, ht, hstore, hfiles, congrArg State.vocabulary (savePaths_frame _).2.1, rfl⟩

theorem headerPath_update [Wording] (s : Session) (m : Message) :
    (s.update m).headerPath = s.headerPath ∨ header? m = some (s.update m).headerPath := by
  unfold headerPath
  rcases s.update_cases m with ⟨⟨hstore, -, -⟩, -⟩ | ⟨chosen, text, hm, -, hstore, -, -, -⟩
  · rw [hstore]; exact .inl rfl
  · rw [hstore]; exact .inr hm

/-! ## In step with the files -/

/-- The settings are kept in the file, and the names are those at the path of the header, where the texts at
paths are as `known`. -/
structure InStep (known : String → Option String) (path : String) (s : Session) : Prop where
  path_eq : s.store.path = path
  kept : s.store.settings.IsKeptAt path s.files
  names : s.state.vocabulary = (known s.headerPath).elim .builtIn .ofText

namespace InStep

variable {known : String → Option String} {path : String} {s : Session} (h : s.InStep known path)
include h

theorem withFiles {fs : Files} (hr : fs.readText path = s.files.readText path) :
    InStep known path { s with files := fs } :=
  ⟨h.path_eq, h.kept.congr hr, h.names⟩

theorem update [Wording] {m : Message}
    (hk : ∀ chosen, header? m = some chosen → (s.files.readText chosen).toOption = known chosen)
    (hok : ∀ f, s.saveError? m ≠ some (.access f)) : (s.update m).InStep known path := by
  rcases s.update_cases m with ⟨⟨hstore, hfiles, hnames⟩, -⟩ | ⟨chosen, text, hm, ht, hstore, hfiles, hnames, he⟩
  · constructor
    · rw [hstore]; exact h.path_eq
    · rw [hstore, hfiles]; exact h.kept
    · unfold headerPath
      rw [hstore, hnames]
      exact h.names
  · have hnew : s.store.withHeader chosen =
        ⟨path, { s.store.settings with paths := { s.store.settings.paths with header := chosen } }⟩ := by
      rw [← h.path_eq]
      rfl
    rw [he, hnew] at hok
    rw [hnew] at hstore hfiles
    constructor
    · rw [hstore]
    · rw [hstore, hfiles]
      exact h.kept.update_paths _ hok
    · unfold headerPath
      rw [hstore, hnames, ← hk chosen hm, ht]
      rfl

theorem restarts (hk : (s.files.readText s.headerPath).toOption = known s.headerPath) : s.Restarts := by
  have hl : Store.load ⟨s.store.path, {}⟩ s.files = ⟨s.store, s.files, [], none⟩ := by
    rw [h.path_eq, h.kept.load {}, ← h.path_eq]
  refine ⟨hl, ?_⟩
  rw [hl, Vocabulary.loadOrBuiltIn_eq, h.names]
  exact congrArg (Option.elim · _ _) hk

end InStep

/-! ## Runs -/

theorem tried_update [Wording] {s : Session} {fs : Files} {m : Message} {es : List (Files × Message)} {path : String}
    (h : path ∈ ({ s with files := fs }.update m).tried es) : path ∈ s.tried ((fs, m) :: es) := by
  have hcons : s.tried ((fs, m) :: es) = s.headerPath :: ((header? m).toList ++ es.filterMap fun e => header? e.2) := by
    unfold tried
    rw [List.filterMap_cons]
    cases header? m <;> rfl
  rw [hcons]
  rcases List.mem_cons.mp h with hp | hp
  · rcases headerPath_update { s with files := fs } m with hs | hs
    · rw [hp, hs]
      exact List.mem_cons_self
    · rw [hs, hp]
      exact List.mem_cons_of_mem _ (List.mem_append_left _ List.mem_cons_self)
  · exact List.mem_cons_of_mem _ (List.mem_append_right _ hp)

theorem inStep_of_mem_points [Wording] {known : String → Option String} {path : String} {es : List (Files × Message)} :
    ∀ {s : Session}, s.InStep known path → s.KeepsFile es →
      (∀ p ∈ s.tried es, ∀ t ∈ s.points es, (t.files.readText p).toOption = known p) →
      ∀ t ∈ s.points es, t.InStep known path ∧ t.headerPath ∈ s.tried es := by
  induction es with
  | nil =>
    intro s h _ _ t ht
    rw [List.mem_singleton.mp ht]
    exact ⟨h, List.mem_cons_self⟩
  | cons e es ih =>
    obtain ⟨fs, m⟩ := e
    intro s h hfile hread t ht
    obtain ⟨hsame, hok, hrest⟩ := hfile
    have hs : InStep known path { s with files := fs } := h.withFiles (by rw [← h.path_eq]; exact hsame)
    have hamid : { s with files := fs } ∈ s.points ((fs, m) :: es) := List.mem_cons_of_mem _ List.mem_cons_self
    have hm : ({ s with files := fs }.update m).InStep known path := by
      refine hs.update (fun chosen hc => hread chosen ?_ _ hamid) hok
      refine List.mem_cons_of_mem _ (List.mem_filterMap.mpr ⟨(fs, m), List.mem_cons_self, hc⟩)
    rcases List.mem_cons.mp ht with rfl | ht
    · exact ⟨h, List.mem_cons_self⟩
    rcases List.mem_cons.mp ht with rfl | ht
    · exact ⟨hs, List.mem_cons_self⟩
    · obtain ⟨hi, ht'⟩ := ih hm hrest
        (fun p hp t ht => hread p (tried_update hp) t (List.mem_cons_of_mem _ (List.mem_cons_of_mem _ ht))) t ht
      exact ⟨hi, tried_update ht'⟩

/-! ## Sessions that are left alone -/

def alone [Wording] (s : Session) : List Message → List (Files × Message)
  | [] => []
  | m :: ms => (s.files, m) :: (s.update m).alone ms

theorem runAmid_alone [Wording] (ms : List Message) : ∀ s : Session, s.runAmid (s.alone ms) = s.run ms := by
  induction ms with
  | nil => exact fun s => rfl
  | cons m ms ih => exact fun s => ih (s.update m)

theorem tried_alone [Wording] (ms : List Message) :
    ∀ s : Session, s.tried (s.alone ms) = s.headerPath :: ms.filterMap header? := by
  intro s
  unfold tried
  congr 1
  induction ms generalizing s with
  | nil => rfl
  | cons m ms ih =>
    rw [alone, List.filterMap_cons, List.filterMap_cons, ih]

/-- In step with the files, of which the one with the settings can be written and is none of the headers `paths`. -/
structure Alone (known : String → Option String) (path : String) (paths : List String) (s : Session) : Prop
    extends InStep known path s where
  replaced : ∃ ks text, Files.replace ks path text = (s.files, none)
  mishaps : s.files.mishaps = []
  apart : ∀ p ∈ paths, s.files.Apart path p
  read : ∀ p ∈ paths, (s.files.readText p).toOption = known p

theorem files_update [Wording] {s : Session} {ks : Files} {text : String}
    (hk : s.store.settings.IsKeptAt s.store.path s.files) (hr : ks.replace s.store.path text = (s.files, none))
    (hmishap : s.files.nextMishap? = none) (m : Message) : s.saveError? m = none ∧ ((s.update m).files = s.files ∨
      ∃ again, (s.update m).files = (s.files.replace s.store.path again).1 ∧
        (s.files.replace s.store.path again).2 = none) := by
  rcases s.update_cases m with ⟨⟨-, hfiles, -⟩, he⟩ | ⟨chosen, text, -, -, -, hfiles, -, he⟩
  · exact ⟨he, .inl hfiles⟩
  · rw [hfiles, he]
    obtain ⟨hn, hf⟩ := hk.update_replaces hr hmishap (s.store.withHeader chosen).settings .paths
    exact ⟨hn, .inr hf⟩

theorem Alone.update [Wording] {known : String → Option String} {path : String} {paths : List String} {s : Session}
    (h : s.Alone known path paths) {m : Message} (hm : ∀ chosen, header? m = some chosen → chosen ∈ paths) :
    (∀ f, s.saveError? m ≠ some (.access f)) ∧ (s.update m).Alone known path paths := by
  obtain ⟨hstep, ⟨ks, text, hr⟩, hmishaps, hapart, hread⟩ := h
  have hpath := hstep.path_eq
  subst hpath
  have hnext? : s.files.nextMishap? = none := by unfold Files.nextMishap?; rw [hmishaps]; rfl
  obtain ⟨hnone, hfiles⟩ := files_update hstep.kept hr hnext? m
  have hok : ∀ f, s.saveError? m ≠ some (.access f) := by
    intro f hf
    rw [hnone] at hf
    cases hf
  have hnext := hstep.update (fun chosen hc => hread chosen (hm chosen hc)) hok
  rcases hfiles with hf | ⟨again, hf, he⟩
  · refine ⟨hok, hnext, ?_, ?_, ?_, ?_⟩
    all_goals rw [hf]
    · exact ⟨ks, text, hr⟩
    · exact hmishaps
    · exact hapart
    · exact hread
  · refine ⟨hok, hnext, ?_, ?_, ?_, ?_⟩
    all_goals rw [hf]
    · exact ⟨s.files, again, Prod.ext rfl he⟩
    · rw [Files.mishaps_replace, hmishaps]; rfl
    · exact fun p hp => ((hapart p hp).replace again).1
    · exact fun p hp => ((hapart p hp).replace again).2.trans (hread p hp)

theorem Alone.keeps [Wording] {known : String → Option String} {path : String} {paths : List String}
    {ms : List Message} :
    ∀ {s : Session}, s.Alone known path paths → (∀ chosen ∈ ms.filterMap header?, chosen ∈ paths) →
      s.KeepsFile (s.alone ms) ∧
        ∀ p ∈ paths, ∀ t ∈ s.points (s.alone ms), (t.files.readText p).toOption = known p := by
  induction ms with
  | nil =>
    intro s h _
    refine ⟨trivial, fun p hp t ht => ?_⟩
    rw [List.mem_singleton.mp ht]
    exact h.read p hp
  | cons m ms ih =>
    intro s h hms
    obtain ⟨hok, hnext⟩ := h.update fun chosen hc =>
      hms chosen (List.mem_filterMap.mpr ⟨m, List.mem_cons_self, hc⟩)
    obtain ⟨hfile, hread⟩ := ih hnext fun chosen hc => by
      obtain ⟨m', hm', hc'⟩ := List.mem_filterMap.mp hc
      exact hms chosen (List.mem_filterMap.mpr ⟨m', List.mem_cons_of_mem _ hm', hc'⟩)
    refine ⟨⟨rfl, hok, hfile⟩, fun p hp t ht => ?_⟩
    rcases List.mem_cons.mp ht with rfl | ht
    · exact h.read p hp
    rcases List.mem_cons.mp ht with rfl | ht
    · exact h.read p hp
    · exact hread p hp t ht

/-! ## Restarting -/

theorem Begins.inStep {path : String} {fs : Files} {s : Session} (h : s.Begins path fs)
    (hown : fs.exists? path = false ∨ ∃ text, fs.readText path = .ok text ∧ OwnText text) :
    s.InStep (fun p => (s.files.readText p).toOption) path := by
  obtain ⟨hpath, hkept⟩ := Settings.isKeptAt_of_load (s := ⟨path, {}⟩) hown h.loaded
  constructor
  · rw [h.store]; exact hpath
  · rw [h.store]; exact hkept.congr h.file
  · rw [h.names, Vocabulary.loadOrBuiltIn_eq]

/-- A session that is left alone touches no header but the file with its settings, and can always write this one
if it was written once. -/
theorem keeps_alone [Wording] {path : String} {fs : Files} {s : Session} {ms : List Message}
    (hown : fs.exists? path = false ∨ ∃ text, fs.readText path = .ok text ∧ OwnText text) (hs : s.Begins path fs)
    (hreplaced : ∃ ks text, Files.replace ks path text = (s.files, none)) (hmishaps : s.files.mishaps = [])
    (hapart : ∀ p ∈ s.headerPath :: ms.filterMap header?, s.files.Apart path p) :
    s.KeepsFile (s.alone ms) ∧ s.KeepsHeaders (s.alone ms) := by
  have h : s.Alone (fun p => (s.files.readText p).toOption) path (s.headerPath :: ms.filterMap header?) :=
    ⟨hs.inStep hown, hreplaced, hmishaps, hapart, fun _ _ => rfl⟩
  unfold KeepsHeaders
  rw [tried_alone]
  exact h.keeps fun chosen hc => List.mem_cons_of_mem _ hc

/-- **A restart sees what the session saw.** The session has begun with no file or with one that the program has
written, and the headers and this file stay what they are but for the session. Then a program that is started at
any point of it loads the same settings, and the same names from the header. -/
theorem restarts_amid [Wording] {path : String} {fs : Files} {s : Session} {es : List (Files × Message)}
    (hown : fs.exists? path = false ∨ ∃ text, fs.readText path = .ok text ∧ OwnText text) (hs : s.Begins path fs)
    (hfile : s.KeepsFile es) (hheaders : s.KeepsHeaders es) :
    (s.runAmid es).Restarts ∧ ∀ t ∈ s.points es, t.store.path = path ∧ t.Restarts := by
  have hstep := hs.inStep hown
  have hall : ∀ t ∈ s.points es, t.store.path = path ∧ t.Restarts := by
    intro t ht
    obtain ⟨hi, hp⟩ := inStep_of_mem_points hstep hfile hheaders t ht
    exact ⟨hi.path_eq, hi.restarts (hheaders _ hp t ht)⟩
  have hlast := runAmid_mem_points es [] s
  rw [List.append_nil] at hlast
  exact ⟨(hall _ hlast).2, hall⟩

section

attribute [local instance] Wording.plain

/-- There is no file at first. A header that is missing is chosen, then none, and then one that is there. -/
theorem restarts_amid_new_file :
    ∃ (s : Session) (ms : List Message),
      ms = [.headerChosen (some "b.h"), .headerChosen none, .headerChosen (some "a.h")] ∧
      (s.run ms).Restarts ∧ (s.run ms).state.vocabulary.presets = ["Not_set", "Custom", "8_2_1"] := by
  let fs : Files := ⟨[(["work"], .directory), (["include"], .directory),
    (["work", "a.h"], .file "preset.name = x = \"8_2_1\"".toUTF8)], ["work"], []⟩
  let r := Store.load ⟨"bct.toml", {}⟩ fs
  let s : Session := opened r.store r.files (.fresh (Vocabulary.loadOrBuiltIn r.files r.store.settings.paths.header).1)
    none ""
  let ms : List Message := [.headerChosen (some "b.h"), .headerChosen none, .headerChosen (some "a.h")]
  have habsent : fs.exists? "bct.toml" = false := by decide +kernel
  have hs : s.Begins "bct.toml" fs := begins_opened (by decide +kernel) none ""
  obtain ⟨text, hr⟩ := Store.replace_of_load (s := ⟨"bct.toml", {}⟩) (Store.load_of_absent habsent).1 hs.loaded
  have hmishaps : s.files.mishaps = [] := by
    have hm := Files.mishaps_replace fs "bct.toml" text
    rwa [hr] at hm
  have hheader : s.headerPath :: ms.filterMap header? = ["../include/structures.h", "b.h", "a.h"] := by decide +kernel
  have hplace (p : String) (loc : Location) (hp : fs.place p = .ok (.named loc)) (hf : loc ≠ ["work", "bct.toml"])
      (hb : loc ≠ ["work", "bct.toml.tmp"]) : fs.Apart "bct.toml" p :=
    ⟨loc, _, _, hp, rfl, rfl, hf, hb⟩
  have hfs : ∀ p ∈ ["../include/structures.h", "b.h", "a.h"], fs.Apart "bct.toml" p := by
    intro p hp
    simp only [List.mem_cons, List.not_mem_nil, or_false] at hp
    rcases hp with rfl | rfl | rfl
    · exact hplace _ ["include", "structures.h"] rfl (by decide) (by decide)
    · exact hplace _ ["work", "b.h"] rfl (by decide) (by decide)
    · exact hplace _ ["work", "a.h"] rfl (by decide) (by decide)
  have hapart : ∀ p ∈ s.headerPath :: ms.filterMap header?, s.files.Apart "bct.toml" p := by
    intro p hp
    rw [hheader] at hp
    have hreplaced := ((hfs p hp).replace text).1
    rw [hr] at hreplaced
    exact hreplaced
  obtain ⟨hfile, hheaders⟩ := keeps_alone (.inl habsent) hs ⟨fs, text, hr⟩ hmishaps hapart
  have hrun := (restarts_amid (.inl habsent) hs hfile hheaders).1
  rw [runAmid_alone] at hrun
  have hlast (t : Session) (a b c : Message) : t.run [a, b, c] = (t.run [a, b]).update c := rfl
  have hnames : (s.run ms).state.vocabulary.presets = ["Not_set", "Custom", "8_2_1"] := by
    rw [hlast, state_update]
    decide +kernel
  exact ⟨s, ms, rfl, hrun, hnames⟩

end

end Session

end Broadcast
