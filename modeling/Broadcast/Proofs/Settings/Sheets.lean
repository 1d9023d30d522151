import Broadcast.Proofs.Toml.SheetReading
import Broadcast.Settings.Store

/-!
# Sheets of settings

What the store writes is a sheet whose tables are sections, each with the values
that the settings had when it was written. Read back, such a sheet means the
values it was written with, and the defaults where a section is missing.
-/

namespace Broadcast

open Toml

namespace Settings

def part (s : Settings) (x : Section) (origin : Option (Nat × String) := none) : Part := ⟨x.name, s.pairs x, origin⟩

theorem keys_pairs (s : Settings) (x : Section) :
    (s.pairs x).map (·.1) = (({} : Settings).pairs x).map (·.1) := by
  cases x <;> rfl

theorem spacing_remark (x : Section) : Spacing (remark x).toList := by
  refine (spacing_of_isSpacing _).1 ?_
  cases x <;> decide +kernel

theorem wellFormed_part (s : Settings) (x : Section) {origin : Option (Nat × String)}
    (h : ∀ o, origin = some o → Spacing o.2.toList) : (s.part x origin).WellFormed where
  name := show IsBareName x.name by cases x <;> decide
  keys := by
    have hk : ((s.pairs x).map (·.1)).all (fun k => decide (IsBareName k)) = true := by
      rw [keys_pairs]
      cases x <;> decide
    intro q hq
    exact of_decide_eq_true (List.all_eq_true.mp hk q.1 (List.mem_map_of_mem hq))
  distinct := by
    have hd : ((s.pairs x).map (·.1)).Nodup := by
      rw [keys_pairs]
      cases x <;> decide
    exact hd
  plain := by
    have hb : (s.device.baud.toNat : Int) < int64Limit := by
      have hlt := s.device.baud.toNat_lt
      unfold int64Limit
      omega
    cases x with
    | paths => simpa [part, pairs] using ⟨Scalar.IsPlain.string _, Scalar.IsPlain.string _⟩
    | device => simpa [part, pairs] using ⟨Scalar.IsPlain.natural hb, Scalar.IsPlain.boolean _⟩
    | logging => simpa [part, pairs] using Scalar.IsPlain.string _
  lead := h

theorem wellFormed_newPart (s : Settings) (x : Section) : (s.part x).WellFormed :=
  s.wellFormed_part x (fun _ ho => by cases ho)

def sheet (s : Settings) : Sheet where
  parts := [s.part .paths (some (1, remark .paths)), s.part .device (some (2, remark .device)),
    s.part .logging (some (3, remark .logging))]
  tail := "\n"
  wellFormed := by
    have hw (x : Section) (n : Nat) : (s.part x (some (n, remark x))).WellFormed :=
      s.wellFormed_part x (fun o ho => by cases ho; exact spacing_remark x)
    intro p hp
    simp only [List.mem_cons, List.not_mem_nil, or_false] at hp
    rcases hp with rfl | rfl | rfl <;> exact hw _ _
  distinct := by simp only [part, List.map_cons, List.map_nil]; decide
  ordered := by simp only [part, Ordered, Part.place]; decide
  ended := .blank .nil

theorem document_sheet (s : Settings) : s.sheet.document = s.document := rfl

def gathered (w : Section → Option Settings) : Settings :=
  ⟨((w .paths).getD {}).paths, ((w .device).getD {}).device, ((w .logging).getD {}).logging⟩

end Settings

/-! ## The tables of a sheet -/

namespace Toml.Sheet

def pairs? (t : Sheet) (name : String) : Option (List (String × Scalar)) :=
  (t.parts.find? fun p => p.name == name).map Part.pairs

structure Holds (t : Sheet) (w : Section → Option Settings) : Prop where
  sections : ∀ p ∈ t.parts, ∃ x : Section, p.name = x.name
  pairs : ∀ x : Section, t.pairs? x.name = (w x).map fun s => s.pairs x

theorem pairs?_eq_lookup (t : Sheet) (name : String) :
    t.pairs? name = (t.parts.map fun p => (p.name, p.pairs)).lookup name := by
  unfold pairs?
  induction t.parts with
  | nil => rfl
  | cons p ps ih =>
    rw [List.map_cons, List.lookup_cons, List.find?_cons]
    by_cases h : p.name = name
    · simp [h]
    · have h₁ : (p.name == name) = false := beq_eq_false_iff_ne.mpr h
      have h₂ : (name == p.name) = false := beq_eq_false_iff_ne.mpr (Ne.symm h)
      simp only [h₁, h₂, ih]

variable {t : Sheet} {w : Section → Option Settings}

theorem Holds.reread (h : t.Holds w) : t.reread.Holds w := by
  have hp : t.reread.parts.map (fun p => (p.name, p.pairs)) = t.parts.map fun p => (p.name, p.pairs) :=
    map_settled (fun n ps => (n, ps)) t.parts 1 true
  refine ⟨fun p hm => ?_, fun x => ?_⟩
  · have hm : (p.name, p.pairs) ∈ t.parts.map fun p => (p.name, p.pairs) := by
      rw [← hp]; exact List.mem_map_of_mem (f := fun p : Part => (p.name, p.pairs)) hm
    obtain ⟨q, hq, he⟩ := List.mem_map.mp hm
    obtain ⟨x, hx⟩ := h.sections q hq
    exact ⟨x, (Prod.mk.inj he).1.symm.trans hx⟩
  · rw [pairs?_eq_lookup, hp, ← pairs?_eq_lookup]
    exact h.pairs x

theorem holds_sheet (s : Settings) : s.sheet.Holds fun _ => some s := by
  refine ⟨fun p hp => ?_, fun x => by cases x <;> rfl⟩
  simp only [Settings.sheet, List.mem_cons, List.not_mem_nil, or_false] at hp
  rcases hp with rfl | rfl | rfl
  · exact ⟨.paths, rfl⟩
  · exact ⟨.device, rfl⟩
  · exact ⟨.logging, rfl⟩

theorem find?_exchanged_of_ne {q : Part} {name : String} (h : q.name ≠ name) (ps : List Part) :
    (ps.map fun p => if p.name = q.name then q else p).find? (fun p => p.name == name) =
      ps.find? fun p => p.name == name := by
  induction ps with
  | nil => rfl
  | cons p ps ih =>
    rw [List.map_cons, List.find?_cons, List.find?_cons, ih]
    by_cases hp : p.name = q.name
    · have h₁ : (p.name == name) = false := beq_eq_false_iff_ne.mpr (hp ▸ h)
      have h₂ : (q.name == name) = false := beq_eq_false_iff_ne.mpr h
      simp only [if_pos hp, h₁, h₂]
    · rw [if_neg hp]

theorem find?_exchanged_self {q : Part} {ps : List Part} (h : q.name ∈ ps.map Part.name) :
    (ps.map fun p => if p.name = q.name then q else p).find? (fun p => p.name == q.name) = some q := by
  induction ps with
  | nil => cases h
  | cons p ps ih =>
    rw [List.map_cons, List.find?_cons]
    by_cases hp : p.name = q.name
    · rw [if_pos hp, beq_self_eq_true]
    · rw [if_neg hp, beq_eq_false_iff_ne.mpr hp]
      rw [List.map_cons, List.mem_cons] at h
      exact ih (h.resolve_left (Ne.symm hp))

theorem pairs?_set (t : Sheet) (q : Part) (hq : q.WellFormed) (hn : q.origin = none) (name : String) :
    (t.set q hq hn).pairs? name = if q.name = name then some q.pairs else t.pairs? name := by
  unfold pairs?
  show ((patched q t.parts).find? fun p => p.name == name).map Part.pairs = _
  unfold patched
  by_cases hc : q.name ∈ t.parts.map Part.name
  · rw [if_pos hc]
    by_cases he : q.name = name
    · subst he
      rw [find?_exchanged_self hc, if_pos rfl]
      rfl
    · rw [find?_exchanged_of_ne he, if_neg he]
  · rw [if_neg hc, List.find?_append]
    by_cases he : q.name = name
    · subst he
      have hf : t.parts.find? (fun p => p.name == q.name) = none :=
        List.find?_eq_none.mpr fun p hp hb => hc (List.mem_map.mpr ⟨p, hp, beq_iff_eq.mp hb⟩)
      rw [hf, if_pos rfl]
      simp
    · rw [if_neg he]
      simp [he]

def setSection (t : Sheet) (s : Settings) (x : Section) : Sheet := t.set (s.part x) (s.wellFormed_newPart x) rfl

theorem Holds.setSection (h : t.Holds w) (s : Settings) (x : Section) :
    (t.setSection s x).Holds fun y => if y = x then some s else w y := by
  refine ⟨fun p hp => ?_, fun y => ?_⟩
  · rcases mem_patched hp with rfl | hp
    · exact ⟨x, rfl⟩
    · exact h.sections p hp
  · have hp : (t.setSection s x).pairs? y.name = if x.name = y.name then some (s.pairs x) else t.pairs? y.name :=
      pairs?_set t (s.part x) (s.wellFormed_newPart x) rfl y.name
    rw [hp]
    by_cases hy : y = x
    · subst hy; rw [if_pos rfl, if_pos rfl]; rfl
    · have hne : ¬ x.name = y.name := fun he => hy (Section.name_injective he).symm
      rw [if_neg hne, if_neg hy]
      exact h.pairs y

/-! ## What a sheet means -/

def pairsValue (ps : List (String × Scalar)) : List (String × Value) := ps.map fun q => (q.1, .scalar q.2)

theorem entryValues_newEntries (ps : List (String × Scalar)) : entryValues (newEntries ps) = pairsValue ps := by
  induction ps with
  | nil => rfl
  | cons q ps ih =>
    rw [newEntries_cons, ← Prod.eta (newPair q.1 q.2), entryValues, ih]
    rfl

theorem values_document (t : Sheet) :
    t.document.values = t.parts.map fun p => (p.name, .table (pairsValue p.pairs)) := by
  unfold Document.values document
  simp only
  induction t.parts with
  | nil => rfl
  | cons p ps ih =>
    have hv : p.entry.2.value = .table (pairsValue p.pairs) := by
      rw [Part.entry, Node.value, entryValues_newEntries]
    rw [List.map_cons, List.map_cons, ← Prod.eta p.entry, entryValues, ih, hv]
    rfl

theorem find?_values (t : Sheet) (name : String) :
    t.document.values.find? (fun e => e.1 == name) =
      (t.pairs? name).map fun ps => (name, .table (pairsValue ps)) := by
  unfold pairs?
  rw [values_document, List.find?_map, Option.map_map]
  cases hf : t.parts.find? fun p => p.name == name with
  | none => exact congrArg _ hf
  | some p =>
    have hb := List.find?_some hf
    have hn : p.name = name := beq_iff_eq.mp hb
    refine (congrArg _ hf).trans ?_
    rw [Option.map_some, Option.map_some, Function.comp_apply, hn]

theorem readSection_document (h : t.Holds w) (x : Section) {α : Type} {read : Fields → Option α} {f : Settings → α}
    (hf : ∀ s : Settings, read (.named (pairsValue (s.pairs x))) = some (f s)) :
    Settings.readSection t.document.values x read (f {}) = some (f ((w x).getD {})) := by
  unfold Settings.readSection
  rw [find?_values, h.pairs]
  cases w x with
  | none => rfl
  | some s => exact hf s

theorem paths_ofFields? (s : Settings) : PathSettings.ofFields? (.named (pairsValue (s.pairs .paths))) = some s.paths :=
  rfl

theorem device_ofFields? (s : Settings) :
    DeviceSettings.ofFields? (.named (pairsValue (s.pairs .device))) = some s.device := by
  have hb : Value.word32? (.scalar (.integer s.device.baud.toNat)) = some s.device.baud :=
    Value.word32?_eq_some_iff.mpr rfl
  have hr : DeviceSettings.ofFields? (.named (pairsValue (s.pairs .device))) =
      (Value.word32? (.scalar (.integer s.device.baud.toNat))).bind fun b => some ⟨b, s.device.connect⟩ := rfl
  rw [hr, hb]
  rfl

theorem logging_ofFields? (s : Settings) :
    LogSettings.ofFields? (.named (pairsValue (s.pairs .logging))) = some s.logging := by
  have hr : LogSettings.ofFields? (.named (pairsValue (s.pairs .logging))) =
      (Level.ofWord? s.logging.level.word).bind fun l => some ⟨l⟩ := rfl
  rw [hr, Level.ofWord?_word]
  rfl

/-- **A sheet means what it was written from.** -/
theorem ofValues?_document (h : t.Holds w) : Settings.ofValues? t.document.values = some (Settings.gathered w) := by
  have h₁ := readSection_document h .paths paths_ofFields?
  have h₂ := readSection_document h .device device_ofFields?
  have h₃ := readSection_document h .logging logging_ofFields?
  unfold Settings.ofValues?
  rw [h₁, h₂, h₃]
  rfl

theorem find?_parts (name : String) (ps : List Part) :
    Entries.find? name (ps.map Part.entry) = (ps.find? fun p => p.name == name).map fun p => p.entry.2 := by
  unfold Entries.find?
  rw [List.find?_map, Option.map_map]
  rfl

theorem hasSection_document (h : t.Holds w) (x : Section) : t.document.hasSection x = (w x).isSome := by
  have hp := h.pairs x
  unfold pairs? at hp
  unfold Document.hasSection document
  simp only
  rw [find?_parts]
  cases hf : t.parts.find? fun p => p.name == x.name with
  | none =>
    rw [hf] at hp
    cases hw : w x with
    | none => rfl
    | some s => rw [hw] at hp; cases hp
  | some p =>
    rw [hf] at hp
    cases hw : w x with
    | none => rw [hw] at hp; cases hp
    | some s =>
      rw [hw] at hp
      have he : p.pairs = s.pairs x := Option.some.inj hp
      show (({} : Settings).pairs x).all (fun q => Entries.contains q.1 (newEntries p.pairs)) = true
      rw [List.all_eq_true, he]
      intro q hq
      refine (contains_newEntries q.1 _).mpr ?_
      rw [s.keys_pairs]
      exact List.mem_map_of_mem hq

theorem isComplete_document (h : t.Holds w) : t.document.isComplete = Section.all.all fun x => (w x).isSome := by
  have hk : (t.document.entries.all fun e => Section.all.any fun x => x.name == e.1.name) = true := by
    refine List.all_eq_true.mpr fun e he => ?_
    obtain ⟨p, hp, rfl⟩ := List.mem_map.mp he
    obtain ⟨x, hx⟩ := h.sections p hp
    exact List.any_eq_true.mpr ⟨x, Section.mem_all x, beq_iff_eq.mpr hx.symm⟩
  unfold Document.isComplete
  rw [hk, Bool.true_and, funext (hasSection_document h)]

theorem parse_text (h : t.Holds w) : Store.parse t.document.text = .ok (t.reread.document, Settings.gathered w) := by
  unfold Store.parse
  rw [t.read?_text]
  simp only [ofValues?_document h.reread]

end Toml.Sheet

end Broadcast
