import Broadcast.Proofs.Session.Restart
import Broadcast.Proofs.Settings.Patch

/-!
# A header that is chosen

A header is read before anything changes, so one that cannot be read leaves a
warning and nothing else. The names of one that is read are adopted at once, and
its path in the settings with them. Only then is the path saved: when that fails
there is a warning, and the file has the content it had.
-/

namespace Broadcast

open Toml

/-! ## Saving a section -/

/-- The file at a path is what it was, wherever the path leads by now. -/
structure Files.KeepsFile (path : String) (fs gs : Files) : Prop where
  contents : ∀ loc, gs.place path = .ok (.named loc) → gs.contents loc = fs.contents loc
  bytes : ∀ loc, fs.place path = .ok (.named loc) → (gs.readBytes path).toOption = (fs.readBytes path).toOption

namespace Store

variable {s : Store} {x : Section} {fs : Files}

theorem keepsFile_of_failed (h : (s.update x fs).error? ≠ none) : Files.KeepsFile s.path fs (s.update x fs).files := by
  cases hc : s.current fs with
  | error e =>
    have hsame : (s.update x fs).files = fs := by
      unfold update
      rw [hc]
    rw [hsame]
    exact ⟨fun _ _ => rfl, fun _ _ => rfl⟩
  | ok d =>
    obtain ⟨hfiles, herror⟩ := replaces_update x hc
    have hfault : (fs.replace s.path (d.setTable x.name (s.settings.pairs x)).text).2 ≠ none := by
      intro hn
      rw [hn] at herror
      exact h herror
    rw [hfiles]
    exact ⟨fun _ => Files.contents_of_failed hfault, fun _ => Files.readBytes_of_failed hfault⟩

def fileText (s : Store) (fs : Files) : String := (fs.readText s.path).toOption.getD ""

theorem read?_of_current {d : Document} (h : s.current fs = .ok d) : Document.read? (s.fileText fs) = some d := by
  unfold current at h
  unfold fileText
  cases hr : fs.readText s.path with
  | error fault =>
    rw [hr] at h
    split at h
    · cases h
    · cases h
      rfl
  | ok text =>
    rw [if_pos (Files.exists?_of_readText hr), hr] at h
    split at h
    · rename_i he; cases he
    · rename_i he
      cases he
      cases h
      rfl
    · rename_i he
      cases he
      split at h
      · rename_i hd
        cases h
        exact hd
      · cases h

/-- A text has just the section that is in memory. -/
def ShownIn (s : Store) (x : Section) (text : String) : Prop :=
  ∃ d, Document.read? text = some d ∧
    (d.values.filter fun e => e.1 == x.name) = [(x.name, .table (Sheet.pairsValue (s.settings.pairs x)))]

theorem shownIn_of_updated (h : (s.update x fs).error? = none) : ∃ d written, s.current fs = .ok d ∧
    (s.update x fs).files.readText s.path = .ok written ∧ (Document.isStrict (s.fileText fs) = true →
      (d.hasLead x.name = false → s.ShownIn x written) ∧
        (d.hasLead x.name = true → Document.read? written = none)) := by
  cases hc : s.current fs with
  | error e =>
    unfold update at h
    rw [hc] at h
    cases h
  | ok d =>
    obtain ⟨he, hf⟩ := update_of_current x hc
    rw [he] at h
    refine ⟨d, (d.setTable x.name (s.settings.pairs x)).text, rfl, ?_, fun hstrict => ?_⟩
    · rw [hf]
      exact (readText_of_write h).2
    · have hpart := s.settings.wellFormed_newPart x
      obtain ⟨hclean, hlead⟩ := Document.read?_setTable_respelled (read?_of_current hc) hstrict hpart.name hpart.keys
        hpart.plain hpart.distinct
      refine ⟨fun hno => ?_, hlead⟩
      obtain ⟨d', hd', hshown, -⟩ := hclean hno
      exact ⟨d', hd', hshown⟩

end Store

namespace Session

/-! ## What is noted -/

def loadedNote (v : Vocabulary) (path : String) : Note :=
  ⟨some .info, "Loaded " ++ Nat.repr v.presets.length ++ " presets, " ++ Nat.repr v.contexts.length ++
    " contexts from " ++ path⟩

def unsavedNote [Wording] (e : ConfigError) : Note := ⟨some .warn, "Failed to save header path: " ++ e.message⟩

/-! ## Adopting a header -/

/-- Everything but the notes and the files, once the header at a path with a text is adopted. -/
structure Adopts (s : Session) (path text : String) (t : Session) : Prop where
  names : t.state.vocabulary = .ofText text
  groups : ∀ id, t.state.group id = s.state.group id
  generations : ∀ id, t.state.generation id = s.state.generation id + 1
  store : t.store = s.store.withHeader path
  channel : t.channel = s.channel
  tab : t.tab = s.tab

theorem chooseHeader_of_unreadable [Wording] {s : Session} {path : String} {fault : Fault}
    (h : s.files.readText path = .error fault) :
    s.chooseHeader path = s.note .warn (HeaderError.unreadable path fault).message := by
  simp only [chooseHeader, Vocabulary.load, h]

theorem chooseHeader_of_read [Wording] {s : Session} {path text : String} (h : s.files.readText path = .ok text) :
    s.chooseHeader path = (s.adopt (.ofText text) path).savePaths := by
  simp only [chooseHeader, Vocabulary.load, h]

theorem adopts_chooseHeader [Wording] {s : Session} {path text : String} (h : s.files.readText path = .ok text) :
    Adopts s path text (s.chooseHeader path) := by
  rw [chooseHeader_of_read h]
  obtain ⟨hstore, -⟩ := (s.adopt (.ofText text) path).savePaths_eq
  obtain ⟨hchannel, hstate, -⟩ := (s.adopt (.ofText text) path).savePaths_frame
  constructor
  · rw [hstate]; rfl
  · intro id
    rw [hstate]; rfl
  · intro id
    rw [hstate]
    exact s.state.generation_act_names (.ofText text) id
  · exact hstore
  · exact hchannel
  · unfold savePaths
    simp only
    split <;> rfl

theorem notes_savePaths [Wording] (s : Session) :
    s.savePaths.notes = s.notes ++ ((s.store.update .paths s.files).error?.map unsavedNote).toList := by
  unfold savePaths
  simp only
  cases (s.store.update .paths s.files).error? with
  | none => exact (List.append_nil _).symm
  | some e => rfl

theorem saveError?_of_read {s : Session} {path text : String} (h : s.files.readText path = .ok text) :
    s.saveError? (.headerChosen (some path)) = ((s.store.withHeader path).update .paths s.files).error? := by
  simp only [saveError?, Vocabulary.load, h]
  rfl

theorem notes_chooseHeader [Wording] {s : Session} {path text : String} (h : s.files.readText path = .ok text) :
    (s.chooseHeader path).notes =
      s.notes ++ (loadedNote (.ofText text) path ::
        ((s.saveError? (.headerChosen (some path))).map unsavedNote).toList) := by
  rw [chooseHeader_of_read h, notes_savePaths, saveError?_of_read h]
  exact List.append_assoc s.notes _ _

theorem files_chooseHeader [Wording] {s : Session} {path text : String} (h : s.files.readText path = .ok text) :
    (s.chooseHeader path).files = ((s.store.withHeader path).update .paths s.files).files := by
  rw [chooseHeader_of_read h]
  exact (s.adopt (.ofText text) path).savePaths_eq.2

/-- **Choosing a header** changes nothing but the notes when it cannot be read. Else it is adopted, and its
path is saved. When that fails there is one more note, and the file is kept; when it does not, the file shows the paths
in memory, or has become unreadable: that it does just when a comment or a line end stands before the key of the paths,
as long as no dotted key in it leads into a table that only headers of tables in it have made. -/
theorem chosen_header [Wording] (s : Session) :
    s.update (.headerChosen none) = s ∧
    (∀ path fault, s.files.readText path = .error fault →
      s.update (.headerChosen (some path)) = s.note .warn (HeaderError.unreadable path fault).message) ∧
    ∀ path text, s.files.readText path = .ok text → ∃ t, s.update (.headerChosen (some path)) = t ∧
      Adopts s path text t ∧
      (∀ e, s.saveError? (.headerChosen (some path)) = some e →
        t.notes = s.notes ++ [loadedNote (.ofText text) path, unsavedNote e] ∧
        Files.KeepsFile s.store.path s.files t.files) ∧
      (s.saveError? (.headerChosen (some path)) = none →
        t.notes = s.notes ++ [loadedNote (.ofText text) path] ∧
        ∃ d written, s.store.current s.files = .ok d ∧ t.files.readText s.store.path = .ok written ∧
          (Document.isStrict (s.store.fileText s.files) = true →
            (d.hasLead "paths" = false → t.store.ShownIn .paths written) ∧
            (d.hasLead "paths" = true → Document.read? written = none))) := by
  refine ⟨rfl, fun path fault h => chooseHeader_of_unreadable h, fun path text h => ?_⟩
  have hadopts := adopts_chooseHeader h
  have hnotes := notes_chooseHeader h
  refine ⟨s.chooseHeader path, rfl, hadopts, fun e he => ?_, fun hn => ?_⟩
  · rw [he] at hnotes
    rw [saveError?_of_read h] at he
    refine ⟨hnotes, ?_⟩
    rw [files_chooseHeader h]
    exact Store.keepsFile_of_failed (s := s.store.withHeader path) (he ▸ Option.some_ne_none e)
  · rw [hn] at hnotes
    rw [saveError?_of_read h] at hn
    refine ⟨hnotes, ?_⟩
    rw [files_chooseHeader h, hadopts.store]
    exact Store.shownIn_of_updated (s := s.store.withHeader path) hn

def beside (config : String) : Session :=
  .opened ⟨"bct.toml", {}⟩
    ((Files.empty.replace "bct.toml" config).1.replace "h.h" "preset.name = x = \"8_2_1\"\n").1
    { vocabulary := .builtIn } none ""

section

/-- A file whose header of the paths has a comment between its brackets. -/
def brokenPaths : String := "[# c\npaths ]\nstructures_header = \"h.h\"\nlogs_folder = \".logs\"\n"

local instance brokenPathsWording : Wording where
  malformed _ :=
    "TOML parse error at line 2, column 7\n  |\n2 | paths ]\n  |       ^\nkey with no value, expected `=`\n"
  misfit _ := "TOML parse error"

def brokenPathsNote : Note where
  level? := some .warn
  message := "Failed to save header path: Failed to parse config for editing: TOML parse error at line 2, column 7\n" ++
    "  |\n2 | paths ]\n  |       ^\nkey with no value, expected `=`\n"

/-- A header that is not there, one whose path cannot be saved in a file that is no document, and one whose path
is, beside a table below and a string that loses its carriage return. -/
theorem chosen_header_beside :
    (beside brokenPaths).update (.headerChosen (some "x.h")) =
        (beside brokenPaths).note .warn (HeaderError.unreadable "x.h" .notFound).message ∧
    (((beside brokenPaths).update (.headerChosen (some "h.h"))).notes = (beside brokenPaths).notes ++
        [loadedNote (.ofText "preset.name = x = \"8_2_1\"\n") "h.h", brokenPathsNote] ∧
      Files.KeepsFile "bct.toml" (beside brokenPaths).files
        ((beside brokenPaths).update (.headerChosen (some "h.h"))).files) ∧
    ∃ written,
      ((beside "a = '''x\r\ny'''\n[paths.b]\n").update (.headerChosen (some "h.h"))).files.readText "bct.toml" =
        .ok written ∧
      Store.ShownIn ⟨"bct.toml", { paths := { header := "h.h" } }⟩ .paths written := by
  obtain ⟨-, hunreadable, hmalformed⟩ := chosen_header (beside brokenPaths)
  obtain ⟨_, rfl, -, hunsaved, -⟩ := hmalformed "h.h" "preset.name = x = \"8_2_1\"\n" (by decide +kernel)
  obtain ⟨-, -, hknown⟩ := chosen_header (beside "a = '''x\r\ny'''\n[paths.b]\n")
  obtain ⟨_, rfl, hadopts, -, hsaved⟩ := hknown "h.h" "preset.name = x = \"8_2_1\"\n" (by decide +kernel)
  obtain ⟨-, d, written, hd, hwritten, hshown⟩ := hsaved (by decide +kernel)
  have hlead : ((beside "a = '''x\r\ny'''\n[paths.b]\n").store.current
      (beside "a = '''x\r\ny'''\n[paths.b]\n").files).toOption.map (Document.hasLead "paths") = some false := by
    decide +kernel
  rw [hd] at hlead
  have hpaths := (hshown (by decide +kernel)).1 (Option.some.inj hlead)
  rw [hadopts.store] at hpaths
  have hnote : unsavedNote (.malformed brokenPaths) = brokenPathsNote := by decide +kernel
  have hbroken := hunsaved (.malformed brokenPaths) (by decide +kernel)
  rw [hnote] at hbroken
  exact ⟨hunreadable "x.h" .notFound (by decide +kernel), hbroken, written, hwritten, hpaths⟩

/-- The comment before the key of the paths gets between the brackets of their header. Nothing is noted about it
until the next header is chosen. -/
theorem chosen_header_unreadable :
    ((beside "# c\npaths = 1\n").files.readText "bct.toml").toOption = some "# c\npaths = 1\n" ∧
    (Document.read? "# c\npaths = 1\n").isSome = true ∧
    ((beside "# c\npaths = 1\n").files.readText "h.h").toOption = some "preset.name = x = \"8_2_1\"\n" ∧
    (beside "# c\npaths = 1\n").saveError? (.headerChosen (some "h.h")) = none ∧
    (((beside "# c\npaths = 1\n").update (.headerChosen (some "h.h"))).files.readText "bct.toml").toOption =
      some brokenPaths ∧
    (Document.read? brokenPaths).isSome = false ∧
    ((beside "# c\npaths = 1\n").run [.headerChosen (some "h.h"), .headerChosen (some "h.h")]).notes =
      [loadedNote (.ofText "preset.name = x = \"8_2_1\"\n") "h.h",
        loadedNote (.ofText "preset.name = x = \"8_2_1\"\n") "h.h", brokenPathsNote] := by
  decide +kernel

end

end Session

end Broadcast
