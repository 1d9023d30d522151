import Broadcast.Proofs.Settings.Loading
import Broadcast.Proofs.Toml.Core

/-!
# What a file means

A document gives a value for a setting in the table of its section, in whichever
form the table is written, or in an array that stands for the section. Every value
that is given has to fit, and a setting that none is given for has its default. The
file is written anew when a section is not a table with all its keys, or when there
is anything else beside the sections; what was in memory has no part in it.
-/

namespace Broadcast

open Toml

/-! ## Settings one by one -/

inductive Setting where
  | header
  | logs
  | baud
  | connect
  | level
  deriving DecidableEq, Repr

namespace Setting

def home : Setting → Section
  | header => .paths
  | logs => .paths
  | baud => .device
  | connect => .device
  | level => .logging

def key : Setting → String
  | header => "structures_header"
  | logs => "logs_folder"
  | baud => "baud_rate"
  | connect => "connect_on_startup"
  | level => "level"

def place : Setting → Nat
  | header => 0
  | logs => 1
  | baud => 0
  | connect => 1
  | level => 0

theorem exists_home (x : Section) : ∃ k : Setting, k.home = x := by
  cases x with
  | paths => exact ⟨header, rfl⟩
  | device => exact ⟨baud, rfl⟩
  | logging => exact ⟨level, rfl⟩

abbrev Kind : Setting → Type
  | header => String
  | logs => String
  | baud => UInt32
  | connect => Bool
  | level => Level

def get : (k : Setting) → Settings → k.Kind
  | header, s => s.paths.header
  | logs, s => s.paths.logs
  | baud, s => s.device.baud
  | connect, s => s.device.connect
  | level, s => s.logging.level

theorem exists_get (a : (k : Setting) → k.Kind) : ∃ s, ∀ k, get k s = a k := by
  refine ⟨⟨⟨a .header, a .logs⟩, ⟨a .baud, a .connect⟩, ⟨a .level⟩⟩, fun k => ?_⟩
  cases k <;> rfl

theorem mem_keys {s : Settings} {x : Section} {name : String} :
    name ∈ (s.pairs x).map (·.1) ↔ ∃ k : Setting, k.home = x ∧ k.key = name := by
  constructor
  · intro h
    cases x <;> simp [Settings.pairs] at h
    · rcases h with rfl | rfl
      · exact ⟨header, rfl, rfl⟩
      · exact ⟨logs, rfl, rfl⟩
    · rcases h with rfl | rfl
      · exact ⟨baud, rfl, rfl⟩
      · exact ⟨connect, rfl, rfl⟩
    · subst h
      exact ⟨level, rfl, rfl⟩
  · rintro ⟨k, rfl, rfl⟩
    cases k <;> simp [Settings.pairs, home, key]

/-- The values that spell what a setting may be. A level may also be the only key of a table, with nothing in it. -/
def Spells : (k : Setting) → Value → k.Kind → Prop
  | header, v, s => v = .scalar (.string s)
  | logs, v, s => v = .scalar (.string s)
  | baud, v, n => v = .scalar (.integer n.toNat)
  | connect, v, b => v = .scalar (.boolean b)
  | level, v, l => v = .scalar (.string l.word) ∨ v = .table [(l.word, .table [])] ∨ v = .table [(l.word, .array [])]

def Fits (k : Setting) (v : Value) : Prop := ∃ a, k.Spells v a

def read? : (k : Setting) → Value → Option k.Kind
  | header => Value.text?
  | logs => Value.text?
  | baud => Value.word32?
  | connect => Value.flag?
  | level => Value.level?

theorem read?_eq_some_iff {k : Setting} {v : Value} {a : k.Kind} : k.read? v = some a ↔ k.Spells v a := by
  cases k with
  | header => exact Value.text?_eq_some_iff
  | logs => exact Value.text?_eq_some_iff
  | baud => exact Value.word32?_eq_some_iff
  | connect => exact Value.flag?_eq_some_iff
  | level => exact Value.level?_eq_some_iff

theorem fits_iff {k : Setting} {v : Value} : k.Fits v ↔ k.read? v ≠ none := by
  simp only [Fits, ← read?_eq_some_iff, Option.ne_none_iff_exists']

end Setting

/-! ## What a document gives -/

theorem Fields.read_eq_some_iff {α : Type} {fs : Fields} {name : String} {place : Nat} {fits : Value → Option α}
    {default a : α} : fs.read name place fits default = some a ↔
      (∃ v, fs.get? name place = some v ∧ fits v = some a) ∨ fs.get? name place = none ∧ a = default := by
  unfold read
  cases fs.get? name place with
  | none => simp [eq_comm]
  | some v => simp

theorem Fields.read_eq_none_iff {α : Type} {fs : Fields} {name : String} {place : Nat} {fits : Value → Option α}
    {default : α} : fs.read name place fits default = none ↔ ∃ v, fs.get? name place = some v ∧ fits v = none := by
  unfold read
  cases fs.get? name place with
  | none => simp
  | some v => simp

namespace Toml

theorem Entries.find?_values (name : String) (es : Entries) :
    ((entryValues es).find? fun e => e.1 == name).map (·.2) = (find? name es).map Node.value := by
  rw [entryValues_eq_map, List.find?_map, Option.map_map, find?, Option.map_map]
  rfl

/-- A single value gives nothing. Only a date is let pass where a section should be. -/
def Node.IsMisplaced : Node → Prop
  | .scalar (.dateTime _) _ _ => False
  | .scalar .. => True
  | _ => False

namespace Document

/-- What a document gives for a setting: under its key in a table of any form, or at its place in an array. -/
inductive Gives (d : Document) (k : Setting) : Value → Prop
  | named {form : Form} {es : Entries} {n : Node} : Entries.find? k.home.name d.entries = some (.table form es) →
      Entries.find? k.key es = some n → Gives d k n.value
  | placed {items : List Node} {comma : Bool} {tail : String} {margin : Margin} {n : Node} :
      Entries.find? k.home.name d.entries = some (.array items comma tail margin) → items[k.place]? = some n →
      Gives d k n.value
  | headed {elements : List Node} {n : Node} : Entries.find? k.home.name d.entries = some (.tables elements) →
      elements[k.place]? = some n → Gives d k n.value

/-- A section, or a setting in it, is there and does not fit. -/
inductive Misfits (d : Document) : Prop
  | home {x : Section} {n : Node} : Entries.find? x.name d.entries = some n → n.IsMisplaced → Misfits d
  | setting {k : Setting} {v : Value} : d.Gives k v → ¬ k.Fits v → Misfits d

/-- Every setting is what the document gives for it, or it has its default. -/
def Means (d : Document) (s : Settings) : Prop :=
  ∀ k : Setting, (∃ v, d.Gives k v ∧ k.Spells v (k.get s)) ∨ (∀ v, ¬ d.Gives k v) ∧ k.get s = k.get {}

/-- Something is missing in a document, or something else is in it. -/
inductive Incomplete (d : Document) : Prop
  | foreign {e : Key × Node} : e ∈ d.entries → (∀ x : Section, e.1.name ≠ x.name) → Incomplete d
  | absent {x : Section} : x.name ∉ Entries.names d.entries → Incomplete d
  | value {x : Section} {n : Node} : Entries.find? x.name d.entries = some n → n.isValue = true → Incomplete d
  | headed {x : Section} {elements : List Node} : Entries.find? x.name d.entries = some (.tables elements) →
      Incomplete d
  | lacks {k : Setting} {form : Form} {es : Entries} :
      Entries.find? k.home.name d.entries = some (.table form es) → k.key ∉ Entries.names es → Incomplete d

/-! ## Reading the settings -/

def fields? (d : Document) (x : Section) : Option Fields :=
  match Entries.find? x.name d.entries with
  | none => some (.named [])
  | some n => n.value.fields?

theorem fields?_eq_none_iff {d : Document} {x : Section} :
    d.fields? x = none ↔ ∃ n, Entries.find? x.name d.entries = some n ∧ n.IsMisplaced := by
  unfold fields?
  cases Entries.find? x.name d.entries with
  | none => simp
  | some n =>
    cases n with
    | scalar v text margin => cases v <;> simp [Node.value, Value.fields?, Node.IsMisplaced]
    | array items comma tail margin => simp [Node.value, Value.fields?, Node.IsMisplaced]
    | table form es => simp [Node.value, Value.fields?, Node.IsMisplaced]
    | tables elements => simp [Node.value, Value.fields?, Node.IsMisplaced]

theorem gives_iff {d : Document} {k : Setting} {v : Value} :
    d.Gives k v ↔ ∃ fs, d.fields? k.home = some fs ∧ fs.get? k.key k.place = some v := by
  unfold fields?
  constructor
  · rintro (⟨hx, hn⟩ | ⟨hx, hn⟩ | ⟨hx, hn⟩)
    · rw [hx]
      refine ⟨_, rfl, ?_⟩
      rw [Fields.get?, Entries.find?_values, hn]
      rfl
    · rw [hx]
      refine ⟨_, rfl, ?_⟩
      rw [Fields.get?, nodeValues_eq_map, List.getElem?_map, hn]
      rfl
    · rw [hx]
      refine ⟨_, rfl, ?_⟩
      rw [Fields.get?, nodeValues_eq_map, List.getElem?_map, hn]
      rfl
  · rintro ⟨fs, hf, hv⟩
    cases hx : Entries.find? k.home.name d.entries with
    | none => rw [hx] at hf; cases hf; cases hv
    | some n =>
      rw [hx] at hf
      cases n with
      | scalar s text margin =>
        cases s with
        | dateTime t => cases hf; cases hv
        | string t => cases hf
        | integer i => cases hf
        | float t => cases hf
        | boolean b => cases hf
      | array items comma tail margin =>
        cases hf
        rw [Fields.get?, nodeValues_eq_map, List.getElem?_map, Option.map_eq_some_iff] at hv
        obtain ⟨n, hn, rfl⟩ := hv
        exact .placed hx hn
      | table form es =>
        cases hf
        rw [Fields.get?, Entries.find?_values, Option.map_eq_some_iff] at hv
        obtain ⟨n, hn, rfl⟩ := hv
        exact .named hx hn
      | tables elements =>
        cases hf
        rw [Fields.get?, nodeValues_eq_map, List.getElem?_map, Option.map_eq_some_iff] at hv
        obtain ⟨n, hn, rfl⟩ := hv
        exact .headed hx hn

def reads? (d : Document) (k : Setting) : Option k.Kind :=
  (d.fields? k.home).bind fun fs => fs.read k.key k.place k.read? (k.get {})

theorem reads?_eq_some_iff {d : Document} {k : Setting} {a : k.Kind} : d.reads? k = some a ↔
    d.fields? k.home ≠ none ∧ ((∃ v, d.Gives k v ∧ k.Spells v a) ∨ (∀ v, ¬ d.Gives k v) ∧ a = k.get {}) := by
  simp only [gives_iff, ← Setting.read?_eq_some_iff]
  unfold reads?
  cases hf : d.fields? k.home with
  | none => simp
  | some fs =>
    rw [Option.bind_some, Fields.read_eq_some_iff]
    cases hv : fs.get? k.key k.place with
    | none => simp [hv]
    | some v => simp [hv]

theorem reads?_eq_none_iff {d : Document} {k : Setting} :
    d.reads? k = none ↔ d.fields? k.home = none ∨ ∃ v, d.Gives k v ∧ ¬ k.Fits v := by
  simp only [gives_iff, Setting.fits_iff]
  unfold reads?
  cases hf : d.fields? k.home with
  | none => simp
  | some fs =>
    rw [Option.bind_some, Fields.read_eq_none_iff]
    cases hv : fs.get? k.key k.place with
    | none => simp [hv]
    | some v => simp [hv]

theorem readSection_values {α : Type} (d : Document) (x : Section) (read : Fields → Option α) {default : α}
    (h : read (.named []) = some default) :
    Settings.readSection d.values x read default = (d.fields? x).bind read := by
  have hv := Entries.find?_values x.name d.entries
  unfold Settings.readSection fields? values
  cases hf : Entries.find? x.name d.entries with
  | none =>
    rw [hf, Option.map_none, Option.map_eq_none_iff] at hv
    rw [hv]
    exact h.symm
  | some n =>
    rw [hf, Option.map_some, Option.map_eq_some_iff] at hv
    obtain ⟨⟨name, v⟩, he, rfl⟩ := hv
    rw [he]

theorem ofValues?_values (d : Document) : Settings.ofValues? d.values =
    (d.reads? .header).bind fun header => (d.reads? .logs).bind fun logs =>
      (d.reads? .baud).bind fun baud => (d.reads? .connect).bind fun connect =>
        (d.reads? .level).bind fun level => some ⟨⟨header, logs⟩, ⟨baud, connect⟩, ⟨level⟩⟩ := by
  have hpaths : (d.fields? .paths).bind PathSettings.ofFields? =
      (d.reads? .header).bind fun header => (d.reads? .logs).bind fun logs => some ⟨header, logs⟩ := by
    unfold reads?
    cases hf : d.fields? .paths <;> simp only [Setting.home, hf] <;> rfl
  have hdevice : (d.fields? .device).bind DeviceSettings.ofFields? =
      (d.reads? .baud).bind fun baud => (d.reads? .connect).bind fun connect => some ⟨baud, connect⟩ := by
    unfold reads?
    cases hf : d.fields? .device <;> simp only [Setting.home, hf] <;> rfl
  have hlogging : (d.fields? .logging).bind LogSettings.ofFields? =
      (d.reads? .level).bind fun level => some ⟨level⟩ := by
    unfold reads?
    cases hf : d.fields? .logging <;> simp only [Setting.home, hf] <;> rfl
  unfold Settings.ofValues?
  rw [readSection_values d .paths PathSettings.ofFields? rfl, readSection_values d .device DeviceSettings.ofFields? rfl,
    readSection_values d .logging LogSettings.ofFields? rfl, hpaths, hdevice, hlogging]
  simp only [Option.bind_eq_bind, Option.bind_assoc, Option.bind_some]

theorem ofValues?_eq_some_iff_reads {d : Document} {s : Settings} :
    Settings.ofValues? d.values = some s ↔ ∀ k, d.reads? k = some (Setting.get k s) := by
  rw [ofValues?_values]
  simp only [Option.bind_eq_some_iff]
  constructor
  · rintro ⟨header, hh, logs, hl, baud, hb, connect, hc, level, hv, hs⟩
    cases hs
    intro k
    cases k with
    | header => exact hh
    | logs => exact hl
    | baud => exact hb
    | connect => exact hc
    | level => exact hv
  · intro h
    exact ⟨_, h .header, _, h .logs, _, h .baud, _, h .connect, _, h .level, rfl⟩

theorem ofValues?_eq_none_iff {d : Document} : Settings.ofValues? d.values = none ↔ d.Misfits := by
  constructor
  · intro h
    by_contra hn
    have hreads : ∀ k, ∃ a, d.reads? k = some a := by
      intro k
      rw [← Option.ne_none_iff_exists', ne_eq, reads?_eq_none_iff, fields?_eq_none_iff]
      rintro (⟨n, hx, hm⟩ | ⟨v, hg, hv⟩)
      · exact hn (.home hx hm)
      · exact hn (.setting hg hv)
    choose a ha using hreads
    obtain ⟨s, hs⟩ := Setting.exists_get a
    have hread : Settings.ofValues? d.values = some s := ofValues?_eq_some_iff_reads.mpr fun k => by rw [hs, ha]
    rw [h] at hread
    cases hread
  · intro h
    rw [Option.eq_none_iff_forall_ne_some]
    intro s hs
    have hreads := ofValues?_eq_some_iff_reads.mp hs
    cases h with
    | @home x n hx hm =>
      obtain ⟨k, rfl⟩ := Setting.exists_home x
      have hk := reads?_eq_none_iff.mpr (.inl (fields?_eq_none_iff.mpr ⟨n, hx, hm⟩))
      rw [hreads k] at hk
      cases hk
    | @setting k v hg hv =>
      have hk := reads?_eq_none_iff.mpr (.inr ⟨v, hg, hv⟩)
      rw [hreads k] at hk
      cases hk

/-- What a document that fits is read as is the only thing that it means. -/
theorem ofValues?_eq_some_iff {d : Document} {s : Settings} :
    Settings.ofValues? d.values = some s ↔ ¬ d.Misfits ∧ d.Means s := by
  constructor
  · intro h
    refine ⟨fun hm => ?_, fun k => ?_⟩
    · rw [ofValues?_eq_none_iff.mpr hm] at h
      cases h
    · exact (reads?_eq_some_iff.mp (ofValues?_eq_some_iff_reads.mp h k)).2
  · rintro ⟨hm, h⟩
    refine ofValues?_eq_some_iff_reads.mpr fun k => reads?_eq_some_iff.mpr ⟨fun hf => ?_, h k⟩
    obtain ⟨n, hx, hn⟩ := fields?_eq_none_iff.mp hf
    exact hm (.home hx hn)

theorem means_unique {d : Document} {s t : Settings} (hm : ¬ d.Misfits) (hs : d.Means s) (ht : d.Means t) : s = t :=
  Option.some.inj ((ofValues?_eq_some_iff.mpr ⟨hm, hs⟩).symm.trans (ofValues?_eq_some_iff.mpr ⟨hm, ht⟩))

/-! ## Completeness -/

theorem openEntries?_eq_some_iff {n : Node} {es : Entries} :
    n.openEntries? = some es ↔ n.isValue = false ∧ ∃ form, n = .table form es := by
  cases n with
  | table form fs => cases form <;> simp [Node.openEntries?, Node.isValue]
  | _ => simp [Node.openEntries?]

theorem hasSection_iff {d : Document} {x : Section} : d.hasSection x = true ↔ ∃ n es,
    Entries.find? x.name d.entries = some n ∧ n.openEntries? = some es ∧
      ∀ k : Setting, k.home = x → k.key ∈ Entries.names es := by
  unfold hasSection
  cases Entries.find? x.name d.entries with
  | none => simp
  | some n =>
    cases hn : n.openEntries? with
    | none => simp [hn]
    | some es =>
      have hall : (({} : Settings).pairs x).all (fun p => Entries.contains p.1 es) = true ↔
          ∀ k : Setting, k.home = x → k.key ∈ Entries.names es := by
        rw [List.all_eq_true]
        constructor
        · intro h k hk
          obtain ⟨q, hq, hname⟩ := List.mem_map.mp (Setting.mem_keys.mpr ⟨k, hk, rfl⟩)
          exact hname ▸ Entries.contains_iff.mp (h q hq)
        · intro h q hq
          obtain ⟨k, hk, hname⟩ := Setting.mem_keys.mp (List.mem_map_of_mem hq)
          exact Entries.contains_iff.mpr (hname ▸ h k hk)
      simp [hn, hall]

theorem isComplete_iff {d : Document} : d.isComplete = true ↔
    (∀ e ∈ d.entries, ∃ x : Section, x.name = e.1.name) ∧ ∀ x, d.hasSection x = true := by
  unfold isComplete
  simp only [Bool.and_eq_true, List.all_eq_true, List.any_eq_true, beq_iff_eq, Section.mem_all, true_and, forall_const]

theorem incomplete_of_hasSection {d : Document} {x : Section} (h : d.hasSection x = false) : d.Incomplete := by
  rw [← Bool.not_eq_true, hasSection_iff] at h
  cases hf : Entries.find? x.name d.entries with
  | none => exact .absent (Entries.find?_eq_none_iff.mp hf)
  | some n =>
    cases hv : n.isValue with
    | true => exact .value hf hv
    | false =>
      cases n with
      | scalar v text margin => cases hv
      | array items comma tail margin => cases hv
      | tables elements => exact .headed hf
      | table form es =>
        by_contra hn
        refine h ⟨_, es, hf, openEntries?_eq_some_iff.mpr ⟨hv, form, rfl⟩, ?_⟩
        rintro k rfl
        by_contra hk
        exact hn (.lacks hf hk)

theorem isComplete_eq_false_iff {d : Document} : d.isComplete = false ↔ d.Incomplete := by
  rw [← Bool.not_eq_true, isComplete_iff]
  constructor
  · intro h
    by_contra hn
    refine h ⟨fun e he => ?_, fun x => ?_⟩
    · by_contra hx
      exact hn (.foreign he fun x hk => hx ⟨x, hk.symm⟩)
    · by_contra hx
      exact hn (incomplete_of_hasSection (Bool.not_eq_true _ ▸ hx))
  · rintro h ⟨hknown, hhas⟩
    have hopen {x : Section} {n : Node} (hx : Entries.find? x.name d.entries = some n) : ∃ es,
        n.openEntries? = some es ∧ ∀ k : Setting, k.home = x → k.key ∈ Entries.names es := by
      obtain ⟨m, es, hf, ho, hk⟩ := hasSection_iff.mp (hhas x)
      rw [hx] at hf
      cases hf
      exact ⟨es, ho, hk⟩
    cases h with
    | foreign he hx =>
      obtain ⟨x, hn⟩ := hknown _ he
      exact hx x hn.symm
    | @absent x hx =>
      obtain ⟨n, es, hf, -⟩ := hasSection_iff.mp (hhas x)
      rw [Entries.find?_eq_none_iff.mpr hx] at hf
      cases hf
    | value hx hn =>
      obtain ⟨es, ho, -⟩ := hopen hx
      rw [(openEntries?_eq_some_iff.mp ho).1] at hn
      cases hn
    | headed hx =>
      obtain ⟨es, ho, -⟩ := hopen hx
      cases ho
    | lacks hx hk =>
      obtain ⟨es, ho, hkeys⟩ := hopen hx
      obtain ⟨-, form, he⟩ := openEntries?_eq_some_iff.mp ho
      cases he
      exact hk (hkeys _ rfl)

end Document

end Toml

/-! ## Loading -/

namespace Store

theorem parse_cases (text : String) :
    (Document.read? text = none ∧ parse text = .error (.malformed text)) ∨
    (∃ d, Document.read? text = some d ∧ d.Misfits ∧ parse text = .error (.misfit text)) ∨
    ∃ d new, Document.read? text = some d ∧ ¬ d.Misfits ∧ d.Means new ∧ parse text = .ok (d, new) := by
  unfold parse
  cases Document.read? text with
  | none => exact .inl ⟨rfl, rfl⟩
  | some d =>
    cases hv : Settings.ofValues? d.values with
    | none => exact .inr (.inl ⟨d, rfl, Document.ofValues?_eq_none_iff.mp hv, by simp only [hv]⟩)
    | some new =>
      obtain ⟨hfits, hmeans⟩ := Document.ofValues?_eq_some_iff.mp hv
      exact .inr (.inr ⟨d, new, rfl, hfits, hmeans, by simp only [hv]⟩)

theorem document_text_ne {text : String} {d : Document} {new : Settings} (hp : parse text = .ok (d, new))
    (hc : d.isComplete = false) (s : Settings) : s.document.text ≠ text := by
  rintro rfl
  obtain ⟨e, he, hcomplete⟩ := s.parse_document
  rw [hp] at he
  cases he
  rw [hc] at hcomplete
  cases hcomplete

theorem load_memory (s : Store) (fs : Files) (memory : Settings) :
    (Store.load ⟨s.path, memory⟩ fs).error? = (s.load fs).error? ∧
      (Store.load ⟨s.path, memory⟩ fs).files = (s.load fs).files ∧
      (Store.load ⟨s.path, memory⟩ fs).log = (s.load fs).log := by
  unfold load
  split
  · cases fs.readText s.path with
    | error f => exact ⟨rfl, rfl, rfl⟩
    | ok text =>
      dsimp only
      cases parse text with
      | error e => exact ⟨rfl, rfl, rfl⟩
      | ok found => exact ⟨rfl, rfl, rfl⟩
  · exact ⟨rfl, rfl, rfl⟩

theorem load_of_means {s : Store} {fs : Files} {text : String} {d : Document} {new : Settings}
    (hread : fs.readText s.path = .ok text) (hp : parse text = .ok (d, new))
    (hio : ∀ f, (s.load fs).error? ≠ some (.access f)) :
    (s.load fs).error? = none ∧ (s.load fs).store.settings = new ∧
      (d.Incomplete → (s.load fs).log = [record .info ("Rewriting " ++ s.path)] ∧
        (s.load fs).files.readText s.path = .ok (s.load fs).store.settings.document.text ∧
        (s.load fs).store.settings.document.text ≠ text) ∧
      (¬ d.Incomplete → (s.load fs).log = [] ∧ (s.load fs).files = fs) := by
  rw [← Document.isComplete_eq_false_iff]
  have hl := (load_of_parsed (Files.exists?_of_readText hread) hread hp).2
  cases hc : d.isComplete with
  | true =>
    rw [if_pos hc] at hl
    rw [hl]
    exact ⟨rfl, rfl, nofun, fun _ => ⟨rfl, rfl⟩⟩
  | false =>
    rw [if_neg (by rw [hc]; exact Bool.false_ne_true)] at hl
    rw [hl] at hio ⊢
    obtain ⟨-, hf, he⟩ := saveNoting_eq ⟨s.path, new⟩ fs [record .info ("Rewriting " ++ s.path)] []
    have hok : (saveNoting ⟨s.path, new⟩ fs [record .info ("Rewriting " ++ s.path)] []).error? = none := by
      by_contra h
      exact (access_of_saveNoting h).elim hio
    have hsaved := (save_of_ok (he.symm.trans hok)).2
    refine ⟨hok, by rw [store_saveNoting], fun _ => ⟨?_, ?_, document_text_ne hp hc _⟩, fun h => absurd rfl h⟩
    · simp only [saveNoting, ite_self, List.append_nil]
    · rw [store_saveNoting, hf]
      exact hsaved

/-- **What a file means, and when it is written anew.** -/
theorem load_of_text {s : Store} {fs : Files} {text : String} (hread : fs.readText s.path = .ok text)
    (hio : ∀ f, (s.load fs).error? ≠ some (.access f)) :
    ((s.load fs).error? = some (.malformed text) ↔ Document.read? text = none) ∧
    ((s.load fs).error? = some (.misfit text) ↔ ∃ d, Document.read? text = some d ∧ d.Misfits) ∧
    ((s.load fs).error? ≠ none → (s.load fs).log = [] ∧ (s.load fs).files = fs) ∧
    (∀ d, Document.read? text = some d → ¬ d.Misfits →
      (s.load fs).error? = none ∧ (∀ new, d.Means new ↔ new = (s.load fs).store.settings) ∧
      (d.Incomplete → (s.load fs).log = [record .info ("Rewriting " ++ s.path)] ∧
        (s.load fs).files.readText s.path = .ok (s.load fs).store.settings.document.text ∧
        (s.load fs).store.settings.document.text ≠ text) ∧
      (¬ d.Incomplete → (s.load fs).log = [] ∧ (s.load fs).files = fs)) ∧
    ∀ memory : Settings, (Store.load ⟨s.path, memory⟩ fs).error? = (s.load fs).error? ∧
      (Store.load ⟨s.path, memory⟩ fs).files = (s.load fs).files ∧
      (Store.load ⟨s.path, memory⟩ fs).log = (s.load fs).log := by
  have hmemory := s.load_memory fs
  rcases parse_cases text with ⟨hd, hp⟩ | ⟨d, hd, hm, hp⟩ | ⟨d, new, hd, hm, hnew, hp⟩
  · rw [(load_of_refused hread hp).2] at hmemory ⊢
    rw [hd]
    exact ⟨iff_of_true rfl rfl, iff_of_false nofun nofun, fun _ => ⟨rfl, rfl⟩, nofun, hmemory⟩
  · rw [(load_of_refused hread hp).2] at hmemory ⊢
    rw [hd]
    refine ⟨iff_of_false nofun nofun, iff_of_true rfl ⟨d, rfl, hm⟩, fun _ => ⟨rfl, rfl⟩, ?_, hmemory⟩
    intro e he hfits
    cases he
    exact absurd hm hfits
  · obtain ⟨hok, hs, hanew, hkept⟩ := load_of_means hread hp hio
    rw [hd]
    refine ⟨iff_of_false (by rw [hok]; nofun) nofun, iff_of_false (by rw [hok]; nofun) ?_, fun h => absurd hok h, ?_,
      hmemory⟩
    · rintro ⟨e, he, h⟩
      cases he
      exact hm h
    · intro e he _
      cases he
      refine ⟨hok, fun other => ?_, hanew, hkept⟩
      rw [hs]
      exact ⟨fun h => Document.means_unique hm h hnew, fun h => h ▸ hnew⟩

/-- A dotted key, an array that stands for its section and has one item too many, and a key that nobody asks for. -/
def spelled : String := "other = 1\ndevice.baud_rate = 9_600\npaths = ['h', \"l\", 3]\n"

def spelledFile : Files := ⟨[(["work"], .directory), (["work", "bct.toml"], .file spelled.toUTF8)], ["work"], []⟩

theorem load_of_text_spelled :
    spelledFile.readText "bct.toml" = .ok spelled ∧ (Store.load ⟨"bct.toml", {}⟩ spelledFile).error? = none ∧
    ∃ d, Document.read? spelled = some d ∧ ¬ d.Misfits ∧ d.Incomplete ∧ d.Means ⟨⟨"h", "l"⟩, ⟨9600, true⟩, {}⟩ := by
  have hread : spelledFile.readText "bct.toml" = .ok spelled := by decide +kernel
  have hok : (Store.load ⟨"bct.toml", {}⟩ spelledFile).error? = none := by decide +kernel
  have hlog : (Store.load ⟨"bct.toml", {}⟩ spelledFile).log ≠ [] := by decide +kernel
  have hsettings : (Store.load ⟨"bct.toml", {}⟩ spelledFile).store.settings = ⟨⟨"h", "l"⟩, ⟨9600, true⟩, {}⟩ := by
    decide +kernel
  refine ⟨hread, hok, ?_⟩
  obtain ⟨hmalformed, hmisfit, -, hmeans, -⟩ :=
    load_of_text (s := ⟨"bct.toml", {}⟩) hread fun f => by rw [hok]; nofun
  rw [hok] at hmalformed hmisfit
  obtain ⟨d, hd⟩ := Option.ne_none_iff_exists'.mp fun h => nomatch hmalformed.mpr h
  have hm : ¬ d.Misfits := fun h => nomatch hmisfit.mpr ⟨d, hd, h⟩
  obtain ⟨-, hiff, -, hkept⟩ := hmeans d hd hm
  refine ⟨d, hd, hm, ?_, (hiff _).mpr hsettings.symm⟩
  by_contra h
  exact hlog (hkept h).1

end Store

end Broadcast
