import Broadcast.Proofs.Settings.RoundTrip

/-!
# Settings that are kept in a file

A text that only saving and updating have written is that of a sheet. Once such a
file was loaded it has all settings, and it keeps all of them when one section is
written anew, so loading it again gives the settings in memory and writes nothing.
-/

namespace Broadcast

open Toml

/-- Texts that nothing but saving and updating has written, an update into what was there before it. -/
inductive OwnText : String → Prop
  | empty : OwnText ""
  | saved (s : Settings) : OwnText s.document.text
  | updated {text : String} {d : Document} (s : Settings) (x : Section) : OwnText text →
      Document.read? text = some d → OwnText (d.setTable x.name (s.pairs x)).text

theorem OwnText.exists_sheet {text : String} (h : OwnText text) :
    ∃ (t : Sheet) (w : Section → Option Settings), t.Holds w ∧ text = t.document.text := by
  induction h with
  | empty => exact ⟨Sharing.blank, fun _ => none, Sharing.holds_blank fun _ => rfl, by decide +kernel⟩
  | saved s => exact ⟨s.sheet, _, Sheet.holds_sheet s, rfl⟩
  | @updated text d s x _ hd ih =>
    obtain ⟨t, w, ht, rfl⟩ := ih
    have hread : t.reread.document = d := Option.some.inj (t.read?_text.symm.trans hd)
    refine ⟨t.reread.setSection s x, _, ht.reread.setSection s x, ?_⟩
    rw [← hread]
    exact congrArg Document.text (t.reread.setTable_document (s.part x) _ rfl)

theorem Store.update_sheet {path : String} {fs : Files} {t : Sheet} (hf : fs.readText path = .ok t.document.text)
    (new : Settings) (x : Section) :
    (Store.update ⟨path, new⟩ x fs).error? =
        (Store.write ⟨path, new⟩ fs (t.reread.setSection new x).document.text).2 ∧
      (Store.update ⟨path, new⟩ x fs).files =
        (Store.write ⟨path, new⟩ fs (t.reread.setSection new x).document.text).1 := by
  obtain ⟨he, hfiles⟩ := update_of_current (s := ⟨path, new⟩) x
    (current_of_read (Files.exists?_of_readText hf) hf t.read?_text)
  have hd : t.reread.document.setTable x.name (new.pairs x) = (t.reread.setSection new x).document :=
    t.reread.setTable_document (new.part x) _ rfl
  rw [hd] at he hfiles
  exact ⟨he, hfiles⟩

namespace Settings

/-- The file at a path has these settings in it, all of them and in the form in which the program writes them. -/
def IsKeptAt (s : Settings) (path : String) (fs : Files) : Prop :=
  ∃ (t : Sheet) (w : Section → Settings), t.Holds (fun x => some (w x)) ∧ gathered (fun x => some (w x)) = s ∧
    fs.readText path = .ok t.document.text

namespace IsKeptAt

variable {s : Settings} {path : String} {fs : Files} (h : s.IsKeptAt path fs)
include h

theorem congr {gs : Files} (hr : gs.readText path = fs.readText path) : s.IsKeptAt path gs := by
  obtain ⟨t, w, ht, hw, hf⟩ := h
  exact ⟨t, w, ht, hw, hr.trans hf⟩

theorem readText : ∃ text, fs.readText path = .ok text := by
  obtain ⟨t, w, -, -, hf⟩ := h
  exact ⟨_, hf⟩

theorem load (memory : Settings) : Store.load ⟨path, memory⟩ fs = ⟨⟨path, s⟩, fs, [], none⟩ := by
  obtain ⟨t, w, ht, rfl, hf⟩ := h
  have hl := (Store.load_of_parsed (s := ⟨path, memory⟩) (Files.exists?_of_readText hf) hf (Sheet.parse_text ht)).2
  rw [hl, Sheet.isComplete_document ht.reread]
  rfl

theorem update_paths (p : PathSettings)
    (hok : ∀ f, (Store.update ⟨path, { s with paths := p }⟩ .paths fs).error? ≠ some (.access f)) :
    IsKeptAt { s with paths := p } path (Store.update ⟨path, { s with paths := p }⟩ .paths fs).files := by
  obtain ⟨t, w, ht, rfl, hf⟩ := h
  generalize hs : ({ gathered (fun x => some (w x)) with paths := p } : Settings) = new at hok ⊢
  obtain ⟨he, hfiles⟩ := Store.update_sheet hf new .paths
  have hn : (Store.write ⟨path, new⟩ fs (t.reread.setSection new .paths).document.text).2 = none :=
    (Store.error_write ⟨path, new⟩ fs _).resolve_right fun ⟨f, hw⟩ => hok f (he.trans hw)
  refine ⟨t.reread.setSection new .paths, fun y => if y = .paths then new else w y, ?_, ?_, ?_⟩
  · have hh := ht.reread.setSection new .paths
    have hw : (fun y => if y = Section.paths then some new else some (w y)) =
        fun y => some (if y = Section.paths then new else w y) := funext fun y => by split <;> rfl
    rw [hw] at hh
    exact hh
  · rw [← hs]
    rfl
  · rw [hfiles]
    exact (Store.readText_of_write hn).2

theorem update_replaces {ks : Files} {text : String} (hr : ks.replace path text = (fs, none))
    (hm : fs.nextMishap? = none) (new : Settings) (x : Section) : (Store.update ⟨path, new⟩ x fs).error? = none ∧
      ∃ again, (Store.update ⟨path, new⟩ x fs).files = (fs.replace path again).1 ∧
        (fs.replace path again).2 = none := by
  obtain ⟨t, w, -, -, hf⟩ := h
  obtain ⟨he, hfiles⟩ := Store.update_sheet hf new x
  generalize (t.reread.setSection new x).document.text = again at he hfiles
  have hagain : (fs.replace path again).2 = none := Files.replace_again hr again hm
  unfold Store.write at he hfiles
  rw [he, hfiles]
  exact ⟨congrArg (Option.map ConfigError.access) hagain, again, rfl, hagain⟩

end IsKeptAt

theorem isKeptAt_of_save {s : Store} {fs : Files} (h : (s.save fs).error? = none) :
    s.settings.IsKeptAt s.path (s.save fs).files :=
  ⟨s.settings.sheet, fun _ => s.settings, Sheet.holds_sheet s.settings, rfl, (Store.save_of_ok h).2⟩

theorem isKeptAt_of_saveNoting {s : Store} {fs : Files} {before after : List Record}
    (h : (s.saveNoting fs before after).error? = none) :
    s.settings.IsKeptAt s.path (s.saveNoting fs before after).files := by
  obtain ⟨-, hf, he⟩ := s.saveNoting_eq fs before after
  rw [hf]
  exact isKeptAt_of_save (he.symm.trans h)

theorem isKeptAt_of_load {s : Store} {fs : Files}
    (hown : fs.exists? s.path = false ∨ ∃ text, fs.readText s.path = .ok text ∧ OwnText text)
    (hok : (s.load fs).error? = none) :
    (s.load fs).store.path = s.path ∧ (s.load fs).store.settings.IsKeptAt s.path (s.load fs).files := by
  rcases hown with habsent | ⟨text, hr, htext⟩
  · have hl := (Store.load_of_absent habsent).2
    rw [hl] at hok ⊢
    rw [Store.store_saveNoting]
    exact ⟨rfl, isKeptAt_of_saveNoting hok⟩
  · obtain ⟨t, w, ht, rfl⟩ := htext.exists_sheet
    have hl := (Store.load_of_parsed (Files.exists?_of_readText hr) hr (Sheet.parse_text ht)).2
    rw [hl] at hok ⊢
    rw [Sheet.isComplete_document ht.reread] at hok ⊢
    split at hok
    · -- every section was written, so there is nothing to complete
      rename_i hall
      rw [if_pos hall]
      have hw : ∀ x, w x = some ((w x).getD {}) := fun x => by
        have hx := List.all_eq_true.mp hall x (Section.mem_all x)
        obtain ⟨s', hs'⟩ := Option.isSome_iff_exists.mp hx
        rw [hs']
        rfl
      refine ⟨rfl, t, fun x => (w x).getD {}, ?_, rfl, hr⟩
      rw [← funext hw]
      exact ht
    · rename_i hall
      rw [if_neg hall, Store.store_saveNoting]
      exact ⟨rfl, isKeptAt_of_saveNoting hok⟩

end Settings

end Broadcast
