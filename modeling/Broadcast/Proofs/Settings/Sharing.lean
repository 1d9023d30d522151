import Broadcast.Proofs.Files.Replace
import Broadcast.Proofs.Settings.Sheets

/-!
# Stores that share a file

Several stores keep their settings at one path, each with a memory of its own.
Whatever they do one after the other, the file has for every section what the
store that wrote it last had in memory, and a store that starts afresh loads
exactly that.
-/

namespace Broadcast

open Toml

/-! ## Single operations -/

namespace Store

/-- Whether loading writes the file: it is missing, or something is missing in it. -/
def writesOnLoad (s : Store) (fs : Files) : Bool :=
  if fs.exists? s.path then
    match fs.readText s.path with
    | .error _ => false
    | .ok text =>
      match parse text with
      | .error _ => false
      | .ok (d, _) => !d.isComplete
  else true

theorem load_of_absent {s : Store} {fs : Files} (h : fs.exists? s.path = false) :
    s.writesOnLoad fs = true ∧
      s.load fs =
        saveNoting { s with settings := {} } fs [] [record .info ("Created default config at " ++ s.path)] := by
  have hn : ¬ fs.exists? s.path = true := by rw [h]; exact Bool.false_ne_true
  exact ⟨if_neg hn, if_neg hn⟩

theorem load_of_parsed {s : Store} {fs : Files} {text : String} {d : Document} {settings : Settings}
    (h : fs.exists? s.path = true) (hr : fs.readText s.path = .ok text) (hp : parse text = .ok (d, settings)) :
    s.writesOnLoad fs = !d.isComplete ∧
      s.load fs =
        if d.isComplete then ⟨{ s with settings := settings }, fs, [], none⟩
        else saveNoting { s with settings := settings } fs [record .info ("Rewriting " ++ s.path)] [] := by
  unfold writesOnLoad load
  rw [if_pos h, if_pos h, hr]
  simp only [hp]
  exact ⟨trivial, trivial⟩

theorem write_eq (s : Store) (fs : Files) (text : String) :
    s.write fs text = ((fs.replace s.path text).1, (fs.replace s.path text).2.map .access) := by
  unfold write
  generalize fs.replace s.path text = r
  rfl

theorem error_write (s : Store) (fs : Files) (text : String) :
    (s.write fs text).2 = none ∨ ∃ f, (s.write fs text).2 = some (.access f) := by
  unfold write
  rcases fs.replace s.path text with ⟨gs, _ | f⟩
  · exact .inl rfl
  · exact .inr ⟨f, rfl⟩

theorem readText_of_write {s : Store} {fs : Files} {text : String} (h : (s.write fs text).2 = none) :
    (s.write fs text).1.exists? s.path = true ∧ (s.write fs text).1.readText s.path = .ok text := by
  unfold write at h ⊢
  rcases hr : fs.replace s.path text with ⟨gs, _ | f⟩
  · exact Files.readText_of_replace hr
  · rw [hr] at h; cases h

theorem save_eq (s : Store) (fs : Files) :
    s.save fs =
      ⟨s, (s.write fs s.settings.sheet.document.text).1, [], (s.write fs s.settings.sheet.document.text).2⟩ := by
  unfold save
  rw [Settings.document_sheet]

theorem error_save (s : Store) (fs : Files) :
    (s.save fs).error? = none ∨ ∃ f, (s.save fs).error? = some (.access f) := by
  simp only [save_eq]
  exact error_write s fs _

theorem saveNoting_eq (s : Store) (fs : Files) (before after : List Record) :
    (s.saveNoting fs before after).store = (s.save fs).store ∧
    (s.saveNoting fs before after).files = (s.save fs).files ∧
      (s.saveNoting fs before after).error? = (s.save fs).error? := by
  unfold saveNoting
  generalize s.save fs = r
  exact ⟨rfl, rfl, rfl⟩

theorem store_saveNoting (s : Store) (fs : Files) (before after : List Record) :
    (s.saveNoting fs before after).store = s := by
  rw [(s.saveNoting_eq fs before after).1, save_eq]

theorem current_of_read {s : Store} {fs : Files} {text : String} {d : Document} (h : fs.exists? s.path = true)
    (hr : fs.readText s.path = .ok text) (hd : Document.read? text = some d) : s.current fs = .ok d := by
  unfold current
  rw [if_pos h, hr]
  split
  · rename_i he; cases he
  · rename_i he
    cases he
    have hn : Document.read? "" = some {} := rfl
    rw [hn] at hd
    cases hd
    rfl
  · rename_i he
    cases he
    rw [hd]

theorem update_of_current {s : Store} {fs : Files} {d : Document} (x : Section) (h : s.current fs = .ok d) :
    (s.update x fs).error? = (s.write fs (d.setTable x.name (s.settings.pairs x)).text).2 ∧
      (s.update x fs).files = (s.write fs (d.setTable x.name (s.settings.pairs x)).text).1 := by
  unfold update
  rw [h]
  simp only
  split
  · rename_i hw; rw [hw]; exact ⟨rfl, rfl⟩
  · rename_i hw; rw [hw]; exact ⟨rfl, rfl⟩

end Store

/-! ## Runs -/

structure Sharing where
  files : Files
  memory : Nat → Settings
  /-- For every section that was written the memory of the store that wrote it last. -/
  written : Section → Option Settings

inductive Move where
  | load (store : Nat)
  | change (store : Nat) (settings : Settings)
  | save (store : Nat)
  | update (store : Nat) (section_ : Section)

namespace Sharing

def remember (sh : Sharing) (i : Nat) (settings : Settings) : Nat → Settings :=
  fun j => if j = i then settings else sh.memory j

def act (path : String) (sh : Sharing) : Move → Sharing × Option ConfigError
  | .load i =>
    let s : Store := ⟨path, sh.memory i⟩
    let r := s.load sh.files
    (⟨r.files, sh.remember i r.store.settings,
      if s.writesOnLoad sh.files then fun _ => some r.store.settings else sh.written⟩, r.error?)
  | .change i settings => ({ sh with memory := sh.remember i settings }, none)
  | .save i =>
    let r := Store.save ⟨path, sh.memory i⟩ sh.files
    (⟨r.files, sh.memory, fun _ => some (sh.memory i)⟩, r.error?)
  | .update i x =>
    let r := Store.update ⟨path, sh.memory i⟩ x sh.files
    (⟨r.files, sh.memory, fun y => if y = x then some (sh.memory i) else sh.written y⟩, r.error?)

/-- What is reached from a tree without the file when the file system refuses nothing. -/
inductive Reached (path : String) : Sharing → Prop
  | start {fs : Files} : fs.exists? path = false → Reached path ⟨fs, fun _ => {}, fun _ => none⟩
  | act {sh : Sharing} (m : Move) : Reached path sh → (∀ f, (sh.act path m).2 ≠ some (.access f)) →
      Reached path (sh.act path m).1

/-- The file is missing and nothing was written, or its text is that of a sheet with what was written. -/
def Consistent (path : String) (fs : Files) (w : Section → Option Settings) : Prop :=
  fs.exists? path = false ∧ (∀ x, w x = none) ∨
    ∃ t : Sheet, t.Holds w ∧ fs.exists? path = true ∧ fs.readText path = .ok t.document.text

theorem consistent_of_write {path : String} {settings : Settings} {fs : Files} {t : Sheet}
    {w : Section → Option Settings}
    (ht : t.Holds w) (h : ∀ f, (Store.write ⟨path, settings⟩ fs t.document.text).2 ≠ some (.access f)) :
    Consistent path (Store.write ⟨path, settings⟩ fs t.document.text).1 w := by
  have hn : (Store.write ⟨path, settings⟩ fs t.document.text).2 = none :=
    (Store.error_write ⟨path, settings⟩ fs t.document.text).resolve_right fun ⟨f, hf⟩ => h f hf
  obtain ⟨he, hr⟩ := Store.readText_of_write hn
  exact .inr ⟨t, ht, he, hr⟩

theorem consistent_of_save {path : String} {settings : Settings} {fs : Files}
    (h : ∀ f, (Store.save ⟨path, settings⟩ fs).error? ≠ some (.access f)) :
    Consistent path (Store.save ⟨path, settings⟩ fs).files fun _ => some settings := by
  simp only [Store.save_eq] at h ⊢
  exact consistent_of_write (Sheet.holds_sheet settings) h

def blank : Sheet := ⟨[], "", by simp, .nil, trivial, .nil⟩

theorem holds_blank {w : Section → Option Settings} (h : ∀ x, w x = none) : blank.Holds w :=
  ⟨fun _ hp => (by cases hp), fun x => (by rw [h]; rfl)⟩

theorem Consistent.current {path : String} {fs : Files} {w : Section → Option Settings} (h : Consistent path fs w)
    (settings : Settings) : ∃ t : Sheet, t.Holds w ∧ Store.current ⟨path, settings⟩ fs = .ok t.document := by
  rcases h with ⟨he, hw⟩ | ⟨t, ht, he, hr⟩
  · refine ⟨blank, holds_blank hw, ?_⟩
    exact if_neg (by rw [he]; exact Bool.false_ne_true)
  · exact ⟨t.reread, ht.reread, Store.current_of_read he hr t.read?_text⟩

theorem Consistent.load {path : String} {fs : Files} {w : Section → Option Settings} (h : Consistent path fs w)
    (settings : Settings) :
    (Store.load ⟨path, settings⟩ fs).store.settings = Settings.gathered w ∧
      ((Store.writesOnLoad ⟨path, settings⟩ fs = false ∧ (Store.load ⟨path, settings⟩ fs).files = fs ∧
          (Store.load ⟨path, settings⟩ fs).error? = none) ∨
        (Store.writesOnLoad ⟨path, settings⟩ fs = true ∧
          (Store.load ⟨path, settings⟩ fs).files = (Store.save ⟨path, Settings.gathered w⟩ fs).files ∧
          (Store.load ⟨path, settings⟩ fs).error? = (Store.save ⟨path, Settings.gathered w⟩ fs).error?)) := by
  rcases h with ⟨he, hw⟩ | ⟨t, ht, he, hr⟩
  · obtain ⟨hwr, hl⟩ := Store.load_of_absent (s := ⟨path, settings⟩) he
    have hg : Settings.gathered w = {} := by unfold Settings.gathered; rw [hw, hw, hw]; rfl
    obtain ⟨h₁, h₂, h₃⟩ := Store.saveNoting_eq ⟨path, {}⟩ fs []
      [Store.record .info ("Created default config at " ++ path)]
    rw [hl, hg, h₁, h₂, h₃, Store.save_eq]
    exact ⟨rfl, .inr ⟨hwr, rfl, rfl⟩⟩
  · obtain ⟨hwr, hl⟩ := Store.load_of_parsed (s := ⟨path, settings⟩) he hr (Sheet.parse_text ht)
    rw [hl, hwr]
    cases t.reread.document.isComplete with
    | true => exact ⟨rfl, .inl ⟨rfl, rfl, rfl⟩⟩
    | false =>
      obtain ⟨h₁, h₂, h₃⟩ := Store.saveNoting_eq ⟨path, Settings.gathered w⟩ fs
        [Store.record .info ("Rewriting " ++ path)] []
      simp only [Bool.false_eq_true, ite_false]
      rw [h₁, h₂, h₃, Store.save_eq]
      exact ⟨rfl, .inr ⟨rfl, rfl, rfl⟩⟩

theorem Consistent.act {path : String} {sh : Sharing} (h : Consistent path sh.files sh.written) (m : Move)
    (hm : ∀ f, (sh.act path m).2 ≠ some (.access f)) :
    Consistent path (sh.act path m).1.files (sh.act path m).1.written := by
  cases m with
  | load i =>
    obtain ⟨hs, ⟨hw, hf, -⟩ | ⟨hw, hf, he⟩⟩ := h.load (sh.memory i)
    · simp only [Sharing.act, hw, hf]
      exact h
    · simp only [Sharing.act, hw, hf, hs, ite_true]
      refine consistent_of_save ?_
      rw [← he]
      exact hm
  | change i settings => exact h
  | save i =>
    simp only [Sharing.act] at hm ⊢
    exact consistent_of_save hm
  | update i x =>
    obtain ⟨t, ht, hc⟩ := h.current (sh.memory i)
    obtain ⟨he, hf⟩ := Store.update_of_current (s := ⟨path, sh.memory i⟩) x hc
    -- the new document is again one of a sheet, in which only this section is another
    have hd : t.document.setTable x.name ((sh.memory i).pairs x) = (t.setSection (sh.memory i) x).document :=
      t.setTable_document ((sh.memory i).part x) _ rfl
    have hm' : ∀ f, (Store.update ⟨path, sh.memory i⟩ x sh.files).error? ≠ some (.access f) := hm
    simp only [Sharing.act, hf]
    simp only [he] at hm'
    rw [hd] at hm' ⊢
    exact consistent_of_write (ht.setSection (sh.memory i) x) hm'

theorem Reached.consistent {path : String} {sh : Sharing} (h : Reached path sh) :
    Consistent path sh.files sh.written := by
  induction h with
  | start he => exact .inl ⟨he, fun _ => rfl⟩
  | act m _ hm ih => exact ih.act m hm

/-- **Nothing that was written is lost.** The file is missing as long as nothing was written,
and else it is a document that means, section by section, what was last written; a store that
starts afresh loads this. -/
theorem Reached.load_written {path : String} {sh : Sharing} (h : Reached path sh) :
    (sh.files.exists? path = false ∧ (∀ x, sh.written x = none) ∨
      ∃ text d, sh.files.exists? path = true ∧ sh.files.readText path = .ok text ∧
        Store.parse text = .ok (d, Settings.gathered sh.written)) ∧
    (Store.load ⟨path, {}⟩ sh.files).store.settings = Settings.gathered sh.written ∧
    ∀ e, (Store.load ⟨path, {}⟩ sh.files).error? = some e → ∃ f, e = .access f := by
  have hc := h.consistent
  obtain ⟨hs, hl⟩ := hc.load {}
  refine ⟨?_, hs, ?_⟩
  · rcases hc with hn | ⟨t, ht, he, hr⟩
    · exact .inl hn
    · exact .inr ⟨_, _, he, hr, Sheet.parse_text ht⟩
  · intro e he
    rcases hl with ⟨-, -, hn⟩ | ⟨-, -, hn⟩
    · rw [hn] at he; cases he
    · rw [hn] at he
      rcases Store.error_save ⟨path, Settings.gathered sh.written⟩ sh.files with h0 | ⟨f, hf⟩
      · rw [h0] at he; cases he
      · rw [hf] at he; cases he; exact ⟨f, rfl⟩

theorem Reached.act_of_none {path : String} {sh : Sharing} (h : Reached path sh) (m : Move)
    (hm : (sh.act path m).2 = none) : Reached path (sh.act path m).1 :=
  h.act m fun f hf => by rw [hm] at hf; cases hf

/-- Two stores write one section each, and each has other values than the file for the section of the other. -/
theorem load_written_two_stores :
    ∃ sh, Reached "bct.toml" sh ∧
      (Store.load ⟨"bct.toml", {}⟩ sh.files).store.settings = ⟨⟨"'a' \"b\"\n", "logs"⟩, ⟨9600, false⟩, {}⟩ := by
  have habsent : Files.empty.exists? "bct.toml" = false := by decide +kernel
  have h₀ := Reached.start habsent
  have h₁ := h₀.act_of_none (.change 0 ⟨{}, ⟨9600, false⟩, ⟨.warn⟩⟩) rfl
  have h₂ := h₁.act_of_none (.change 1 ⟨⟨"'a' \"b\"\n", "logs"⟩, ⟨300, true⟩, ⟨.error⟩⟩) rfl
  have h₃ := h₂.act_of_none (.update 0 .device) (by decide +kernel)
  have h₄ := h₃.act_of_none (.update 1 .paths) (by decide +kernel)
  exact ⟨_, h₄, (Reached.load_written h₄).2.1.trans (by decide +kernel)⟩

end Sharing

end Broadcast
