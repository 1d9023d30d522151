import Broadcast.Proofs.Files.Spared
import Broadcast.Proofs.Settings.Sharing

/-!
# Saved and loaded

What is saved is the text of a complete sheet, so loading it finds every setting
as it was and nothing to complete, and saving it again writes the same text.
-/

namespace Broadcast

open Toml

theorem eq_toUTF8_of_fromUTF8? {bytes : ByteArray} {text : String} (h : String.fromUTF8? bytes = some text) :
    bytes = text.toUTF8 := by
  unfold String.fromUTF8? at h
  split at h
  · cases h; rfl
  · cases h

theorem Files.readBytes_of_readText {fs : Files} {path text : String} (h : fs.readText path = .ok text) :
    fs.readBytes path = .ok text.toUTF8 := by
  unfold readText at h
  cases hb : fs.readBytes path with
  | error f => rw [hb] at h; cases h
  | ok bytes =>
    rw [hb] at h
    simp only [bind, Except.bind] at h
    split at h
    · rename_i t ht
      cases h
      rw [eq_toUTF8_of_fromUTF8? ht]
    · cases h

theorem Files.exists?_of_readText {fs : Files} {path text : String} (h : fs.readText path = .ok text) :
    fs.exists? path = true := by
  have hb := readBytes_of_readText h
  unfold readBytes at hb
  unfold exists? find?
  cases hl : fs.locate path with
  | error f => rw [hl] at hb; cases hb
  | ok loc =>
    rw [hl] at hb
    cases hg : fs.get? loc with
    | none => simp only [bind, Except.bind, hg] at hb; cases hb
    | some e => simp only [hg, Option.isSome_some]

namespace Settings

theorem parse_document (s : Settings) :
    ∃ d, Store.parse s.document.text = .ok (d, s) ∧ d.isComplete = true := by
  have hs := Sheet.holds_sheet s
  have hg : gathered (fun _ => some s) = s := rfl
  refine ⟨_, ?_, Sheet.isComplete_document hs.reread⟩
  rw [← document_sheet, Sheet.parse_text hs, hg]

end Settings

namespace Store

theorem save_of_ok {s : Store} {fs : Files} (h : (s.save fs).error? = none) :
    (s.save fs).files.exists? s.path = true ∧ (s.save fs).files.readText s.path = .ok s.settings.document.text := by
  have hwrite := @readText_of_write s fs s.settings.document.text
  unfold save at h ⊢
  generalize s.write fs s.settings.document.text = r at h hwrite ⊢
  exact hwrite h

def Replaces (path : String) (fs : Files) (text : String) (r : Result) : Prop :=
  r.files = (fs.replace path text).1 ∧ r.error? = (fs.replace path text).2.map .access

theorem replaces_save (s : Store) (fs : Files) :
    (s.save fs).store = s ∧ Replaces s.path fs s.settings.document.text (s.save fs) := by
  unfold Replaces save write
  generalize fs.replace s.path s.settings.document.text = r
  exact ⟨rfl, rfl, rfl⟩

theorem replace_of_save {s : Store} {fs : Files} (h : (s.save fs).error? = none) :
    fs.replace s.path s.settings.document.text = ((s.save fs).files, none) := by
  obtain ⟨hf, he⟩ := (s.replaces_save fs).2
  rw [h] at he
  exact Prod.ext hf.symm (Option.map_eq_none_iff.mp he.symm)

theorem save_again {s : Store} {fs : Files} {bytes : ByteArray} (h : (s.save fs).error? = none)
    (hb : (s.save fs).files.readBytes s.path = .ok bytes) :
    ((s.save fs).files.nextMishap? = none → (s.save (s.save fs).files).error? = none) ∧
      (s.save (s.save fs).files).files.readBytes s.path = .ok bytes := by
  have hr := replace_of_save h
  obtain ⟨hf, he⟩ := (s.replaces_save (s.save fs).files).2
  refine ⟨fun hm => ?_, ?_⟩
  · rw [he, Files.replace_again hr _ hm]
    rfl
  · by_cases hagain : (s.save (s.save fs).files).error? = none
    · rw [Files.readBytes_of_readText (save_of_ok hagain).2, ← hb, Files.readBytes_of_readText (save_of_ok h).2]
    · have hfault : ((s.save fs).files.replace s.path s.settings.document.text).2 ≠ none := by
        intro hn
        rw [he, hn] at hagain
        exact hagain rfl
      obtain ⟨loc, hp, -⟩ := Files.file_of_replace hr
      have hsame := Files.readBytes_of_failed hfault hp
      rw [← hf, hb] at hsame
      generalize (s.save (s.save fs).files).files.readBytes s.path = read at hsame ⊢
      cases read with
      | error f => cases hsame
      | ok bytes => cases hsame; rfl

theorem load_of_saved {s : Store} {fs : Files} (h : (s.save fs).error? = none) (memory : Settings) :
    Store.load ⟨s.path, memory⟩ (s.save fs).files = ⟨s, (s.save fs).files, [], none⟩ := by
  obtain ⟨he, hr⟩ := save_of_ok h
  obtain ⟨d, hp, hc⟩ := s.settings.parse_document
  have hl := (load_of_parsed (s := ⟨s.path, memory⟩) he hr hp).2
  rw [if_pos hc] at hl
  exact hl

/-- **What was saved is loaded** as it was, and the file stays as it is, also when what was loaded is saved. -/
theorem load_save (s : Store) (fs : Files) (memory : Settings) (h : (s.save fs).error? = none) :
    (Store.load ⟨s.path, memory⟩ (s.save fs).files).error? = none ∧
    (Store.load ⟨s.path, memory⟩ (s.save fs).files).store.settings = s.settings ∧
    (Store.load ⟨s.path, memory⟩ (s.save fs).files).log = [] ∧
    (Store.load ⟨s.path, memory⟩ (s.save fs).files).files = (s.save fs).files ∧
    ((s.save fs).files.nextMishap? = none →
      ((Store.load ⟨s.path, memory⟩ (s.save fs).files).store.save (s.save fs).files).error? = none) ∧
    ∃ bytes, (s.save fs).files.readBytes s.path = .ok bytes ∧
      ((Store.load ⟨s.path, memory⟩ (s.save fs).files).store.save (s.save fs).files).files.readBytes s.path =
        .ok bytes := by
  have hbefore := Files.readBytes_of_readText (save_of_ok h).2
  obtain ⟨hagain, hafter⟩ := save_again h hbefore
  rw [load_of_saved h memory]
  exact ⟨rfl, rfl, rfl, rfl, hagain, _, hbefore, hafter⟩

/-- A header path of quotes of both kinds, line ends, control characters and a backslash, and a log
folder of nothing but quotes. -/
theorem load_save_quotes :
    (Store.save ⟨"a/b.toml", ⟨⟨"\"'''\"\"\"\\\r\n\x01\t'", "''''"⟩, ⟨4294967295, false⟩, ⟨.trace⟩⟩⟩ .empty).error? =
      none ∧
    (Store.load ⟨"a/b.toml", {}⟩ (Store.save ⟨"a/b.toml",
      ⟨⟨"\"'''\"\"\"\\\r\n\x01\t'", "''''"⟩, ⟨4294967295, false⟩, ⟨.trace⟩⟩⟩ .empty).files).store.settings =
        ⟨⟨"\"'''\"\"\"\\\r\n\x01\t'", "''''"⟩, ⟨4294967295, false⟩, ⟨.trace⟩⟩ := by
  have hok : (Store.save ⟨"a/b.toml",
      ⟨⟨"\"'''\"\"\"\\\r\n\x01\t'", "''''"⟩, ⟨4294967295, false⟩, ⟨.trace⟩⟩⟩ .empty).error? = none := by decide +kernel
  exact ⟨hok, (load_save _ .empty {} hok).2.1⟩

end Store

end Broadcast
