import Broadcast.Proofs.Settings.RoundTrip

/-!
# Loading, step by step

Loading reads the file and takes its settings into memory. Only then it saves them,
if the file was missing or something was missing in it. So a second load finds a
file in which nothing is missing, and does nothing. And a load that fails at reading
leaves the memory as it was, but one that fails at saving does not.
-/

namespace Broadcast.Store

theorem load_of_refused {s : Store} {fs : Files} {text : String} {e : ConfigError} (hr : fs.readText s.path = .ok text)
    (hp : parse text = .error e) : s.writesOnLoad fs = false ∧ s.load fs = ⟨s, fs, [], some e⟩ := by
  unfold writesOnLoad load
  rw [if_pos (Files.exists?_of_readText hr), if_pos (Files.exists?_of_readText hr), hr]
  simp only [hp]
  exact ⟨trivial, trivial⟩

/-- How a load goes, and whether it writes: it ends at the file, or with what is in the file, or it saves. -/
inductive Loads (s : Store) (fs : Files) : Bool → Result → Prop
  | unreadable {f : Fault} : fs.exists? s.path = true → fs.readText s.path = .error f →
      Loads s fs false ⟨s, fs, [], some (.access f)⟩
  | refused {text : String} {e : ConfigError} : fs.readText s.path = .ok text → parse text = .error e →
      Loads s fs false ⟨s, fs, [], some e⟩
  | complete {text : String} {d : Toml.Document} {new : Settings} : fs.readText s.path = .ok text →
      parse text = .ok (d, new) → d.isComplete = true → Loads s fs false ⟨⟨s.path, new⟩, fs, [], none⟩
  | incomplete {text : String} {d : Toml.Document} {new : Settings} : fs.readText s.path = .ok text →
      parse text = .ok (d, new) → d.isComplete = false →
      Loads s fs true (saveNoting ⟨s.path, new⟩ fs [record .info ("Rewriting " ++ s.path)] [])
  | absent : fs.exists? s.path = false →
      Loads s fs true (saveNoting ⟨s.path, {}⟩ fs [] [record .info ("Created default config at " ++ s.path)])

theorem loads_load (s : Store) (fs : Files) : s.Loads fs (s.writesOnLoad fs) (s.load fs) := by
  cases he : fs.exists? s.path with
  | false =>
    obtain ⟨hw, hl⟩ := load_of_absent he
    rw [hw, hl]
    exact .absent he
  | true =>
    cases hr : fs.readText s.path with
    | error f =>
      have hl : s.load fs = ⟨s, fs, [], some (.access f)⟩ := by simp only [load, he, hr, ite_true]
      have hw : s.writesOnLoad fs = false := by simp only [writesOnLoad, he, hr, ite_true]
      rw [hw, hl]
      exact .unreadable he hr
    | ok text =>
      cases hp : parse text with
      | error e =>
        obtain ⟨hw, hl⟩ := load_of_refused hr hp
        rw [hw, hl]
        exact .refused hr hp
      | ok found =>
        obtain ⟨d, new⟩ := found
        obtain ⟨hw, hl⟩ := load_of_parsed he hr hp
        rw [hw, hl]
        cases hc : d.isComplete with
        | true => exact .complete hr hp hc
        | false => exact .incomplete hr hp hc

/-! ## Loading again -/

theorem settled_of_saveNoting {s : Store} {fs : Files} {before after : List Record}
    (h : (s.saveNoting fs before after).error? = none) :
    (s.saveNoting fs before after).store.path = s.path ∧ ∀ again : Store, again.path = s.path →
      again.load (s.saveNoting fs before after).files =
        ⟨(s.saveNoting fs before after).store, (s.saveNoting fs before after).files, [], none⟩ := by
  obtain ⟨-, hf, he⟩ := s.saveNoting_eq fs before after
  rw [store_saveNoting, hf]
  refine ⟨rfl, ?_⟩
  rintro ⟨path, memory⟩ rfl
  exact load_of_saved (he.symm.trans h) memory

/-- **Loading settles.** After a load that succeeded, the same store and any other one at its path load the
same settings, log nothing and leave all files as they are. -/
theorem load_settles {s : Store} {fs : Files} (h : (s.load fs).error? = none) :
    (s.load fs).store.path = s.path ∧ ∀ again : Store, again.path = s.path →
      again.load (s.load fs).files = ⟨(s.load fs).store, (s.load fs).files, [], none⟩ := by
  have hloads := s.loads_load fs
  generalize s.writesOnLoad fs = writes, s.load fs = r at h hloads ⊢
  cases hloads with
  | unreadable => cases h
  | refused => cases h
  | complete hr hp hc =>
    refine ⟨rfl, ?_⟩
    rintro ⟨path, memory⟩ rfl
    rw [(load_of_parsed (s := ⟨s.path, memory⟩) (Files.exists?_of_readText hr) hr hp).2, if_pos hc]
  | incomplete => exact settled_of_saveNoting h
  | absent => exact settled_of_saveNoting h

/-- A section in braces, one in brackets and a table that nobody asks for: the file is written anew once. -/
theorem load_settles_rewritten :
    (Store.load ⟨"bct.toml", {}⟩ ⟨[(["work"], .directory), (["work", "bct.toml"],
      .file "device = \x7b baud_rate = 9_600 \x7d\npaths = ['h']\n[other]\n".toUTF8)], ["work"], []⟩).error? = none ∧
    (Store.load ⟨"bct.toml", ⟨⟨"x", "y"⟩, ⟨1, false⟩, ⟨.trace⟩⟩⟩ (Store.load ⟨"bct.toml", {}⟩ ⟨[(["work"], .directory),
      (["work", "bct.toml"], .file "device = \x7b baud_rate = 9_600 \x7d\npaths = ['h']\n[other]\n".toUTF8)],
      ["work"], []⟩).files).store.settings = ⟨⟨"h", ".logs"⟩, ⟨9600, true⟩, {}⟩ := by
  have hok : (Store.load ⟨"bct.toml", {}⟩ ⟨[(["work"], .directory), (["work", "bct.toml"],
      .file "device = \x7b baud_rate = 9_600 \x7d\npaths = ['h']\n[other]\n".toUTF8)], ["work"], []⟩).error? =
        none := by
    decide +kernel
  refine ⟨hok, ?_⟩
  rw [(load_settles hok).2 ⟨"bct.toml", ⟨⟨"x", "y"⟩, ⟨1, false⟩, ⟨.trace⟩⟩⟩ rfl]
  decide +kernel

/-! ## Loading that fails -/

theorem access_of_saveNoting {s : Store} {fs : Files} {before after : List Record}
    (h : (s.saveNoting fs before after).error? ≠ none) :
    ∃ f, (s.saveNoting fs before after).error? = some (.access f) := by
  rw [(s.saveNoting_eq fs before after).2.2] at h ⊢
  exact (s.error_save fs).resolve_left h

/-- **The memory after a load that failed.** If the file was not to be written, the memory is as it was. Else
writing it has failed, and the memory has the settings of the file, or the defaults when there is no file. -/
theorem store_of_failed_load {s : Store} {fs : Files} (h : (s.load fs).error? ≠ none) :
    (s.writesOnLoad fs = false ∧ (s.load fs).store = s) ∨
    s.writesOnLoad fs = true ∧ (∃ f, (s.load fs).error? = some (.access f)) ∧
      (fs.exists? s.path = false ∧ (s.load fs).store = ⟨s.path, {}⟩ ∨
        ∃ text d new, fs.readText s.path = .ok text ∧ parse text = .ok (d, new) ∧ d.isComplete = false ∧
          (s.load fs).store = ⟨s.path, new⟩) := by
  have hloads := s.loads_load fs
  generalize s.writesOnLoad fs = writes, s.load fs = r at h hloads ⊢
  cases hloads with
  | unreadable => exact .inl ⟨rfl, rfl⟩
  | refused => exact .inl ⟨rfl, rfl⟩
  | complete => exact absurd rfl h
  | incomplete hr hp hc =>
    exact .inr ⟨rfl, access_of_saveNoting h, .inr ⟨_, _, _, hr, hp, hc, store_saveNoting _ _ _ _⟩⟩
  | absent he => exact .inr ⟨rfl, access_of_saveNoting h, .inl ⟨he, store_saveNoting _ _ _ _⟩⟩

def blocked : Files :=
  ⟨[(["work"], .directory), (["work", "bct.toml"], .file "[device]\nbaud_rate = 9600\n".toUTF8),
    (["work", "bct.toml.tmp"], .directory)], ["work"], []⟩

theorem store_of_failed_load_blocked :
    (Store.load ⟨"bct.toml", {}⟩ blocked).error? ≠ none ∧ ∃ text d new, blocked.readText "bct.toml" = .ok text ∧
      parse text = .ok (d, new) ∧ (Store.load ⟨"bct.toml", {}⟩ blocked).store = ⟨"bct.toml", new⟩ := by
  have hfail : (Store.load ⟨"bct.toml", {}⟩ blocked).error? ≠ none := by decide +kernel
  have hwrites : Store.writesOnLoad ⟨"bct.toml", {}⟩ blocked ≠ false := by decide +kernel
  have hthere : blocked.exists? "bct.toml" ≠ false := by decide +kernel
  refine ⟨hfail, ?_⟩
  rcases store_of_failed_load hfail with ⟨hw, -⟩ | ⟨-, -, ⟨ha, -⟩ | ⟨text, d, new, hr, hp, -, hs⟩⟩
  · exact absurd hw hwrites
  · exact absurd ha hthere
  · exact ⟨text, d, new, hr, hp, hs⟩

/-- A fresh store has another baud rate than the default one after a load that failed. -/
theorem failed_load_changes_memory :
    (Store.load ⟨"bct.toml", {}⟩ blocked).error? = some (.access .isADirectory) ∧
      (Store.load ⟨"bct.toml", {}⟩ blocked).store.settings.device.baud = 9600 ∧
      ¬ ∀ (s : Store) (fs : Files), (s.load fs).error? ≠ none → (s.load fs).store.settings = s.settings := by
  have herror : (Store.load ⟨"bct.toml", {}⟩ blocked).error? = some (.access .isADirectory) := by decide +kernel
  have hbaud : (Store.load ⟨"bct.toml", {}⟩ blocked).store.settings.device.baud = 9600 := by decide +kernel
  refine ⟨herror, hbaud, fun h => ?_⟩
  rw [h _ _ (by rw [herror]; simp)] at hbaud
  exact absurd hbaud (by decide)

end Broadcast.Store
