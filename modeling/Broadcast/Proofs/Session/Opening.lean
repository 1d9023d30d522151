import Broadcast.Proofs.Files.Growing
import Broadcast.Proofs.Settings.Kept
import Broadcast.Proofs.State.Runs
import Broadcast.Startup

/-!
# How a session begins

The program loads its settings, opens a log file and then reads the names from the
header. The log file is either new or has what it had, so the settings can be read
again as they were loaded.
-/

namespace Broadcast

namespace Session

/-- A session begins with the settings in the file at a path and with the names in the header they give. -/
structure Begins (path : String) (fs : Files) (s : Session) : Prop where
  loaded : (Store.load ⟨path, {}⟩ fs).error? = none
  store : s.store = (Store.load ⟨path, {}⟩ fs).store
  file : s.files.readText path = (Store.load ⟨path, {}⟩ fs).files.readText path
  names : s.state.vocabulary = (Vocabulary.loadOrBuiltIn s.files s.headerPath).1

theorem begins_opened {path : String} {fs : Files} (hok : (Store.load ⟨path, {}⟩ fs).error? = none)
    (channel : Option Channel) (greeting : String) :
    (opened (Store.load ⟨path, {}⟩ fs).store (Store.load ⟨path, {}⟩ fs).files
      (.fresh (Vocabulary.loadOrBuiltIn (Store.load ⟨path, {}⟩ fs).files
        (Store.load ⟨path, {}⟩ fs).store.settings.paths.header).1) channel greeting).Begins path fs :=
  ⟨hok, rfl, rfl, rfl⟩

end Session

namespace Startup

theorem grows_of_openFile {fs gs : Files} {path : String} (h : openFile fs path = .ok gs) : fs.Grows gs := by
  unfold openFile at h
  split at h
  · rename_i bytes hr
    exact Files.grows_of_write (by rw [hr]; rfl) h
  · rename_i f hr
    exact Files.grows_of_write (by rw [hr]; rfl) h

theorem grows_of_openLog {fs gs : Files} {path : String} (h : openLog fs path = .ok gs) : fs.Grows gs := by
  unfold openLog at h
  split at h
  · rename_i ks hk
    cases h
    exact grows_of_openFile hk
  · have hm := Files.made_makeParents fs path
    split at h
    · cases h
    · rename_i ks hk
      rw [hk] at hm
      exact hm.grows.trans (grows_of_openFile h)

theorem grows_ensureLogs (s : Store) (fs : Files) : fs.Grows (s.ensureLogs fs).files := by
  unfold Store.ensureLogs
  split
  · exact .refl fs
  · exact (Files.made_makeDirectories fs _).grows

theorem files_of_window [Wording] {around : Surroundings} {store : Store} {fs : Files} {printed : String} {s : Session}
    (h : (proceed around store fs printed).ending = .window s) :
    s.store = store ∧ s.files = fs ∧ s.state = .fresh (Vocabulary.loadOrBuiltIn fs store.settings.paths.header).1 := by
  unfold proceed at h
  simp only at h
  split at h
  · cases h
  · cases h
    exact ⟨rfl, rfl, rfl⟩

/-- The window opens on a session that begins with what was loaded, if the file was missing or the program's own. -/
theorem begins_of_run [Wording] {around : Surroundings} {s : Session} (h : (run around).ending = .window s)
    (hown : around.files.exists? Settings.standardPath = false ∨
      ∃ text, around.files.readText Settings.standardPath = .ok text ∧ OwnText text)
    (hok : (Store.load ⟨Settings.standardPath, {}⟩ around.files).error? = none) :
    s.Begins Settings.standardPath around.files := by
  obtain ⟨text, hr⟩ := (Settings.isKeptAt_of_load (s := ⟨Settings.standardPath, {}⟩) hown hok).2.readText
  unfold run at h
  generalize hload : Store.load ⟨Settings.standardPath, {}⟩ around.files = loaded at hok hr h
  simp only at h
  split at h
  · cases h
  · rename_i fs hopen
    obtain ⟨hstore, hfiles, hstate⟩ := files_of_window h
    have hgrown := (grows_ensureLogs loaded.store loaded.files).trans (grows_of_openLog hopen)
    constructor
    · rw [hload]; exact hok
    · rw [hload]; exact hstore
    · rw [hload, hfiles, hgrown.readText hr]
      exact hr.symm
    · unfold Session.headerPath
      rw [hstate, hfiles, hstore]
      rfl

end Startup

end Broadcast
