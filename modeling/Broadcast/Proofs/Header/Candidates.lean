import Broadcast.Proofs.Header.Declarations
import Broadcast.Proofs.Text.Lines

/-!
# Every candidate is accounted for

A line with the keyword and `.name` either gives a name or is reported with its
number, and never both; any other line gives nothing. So the names and the reports
of a text are as many as its candidates. Names are found line by line: a text that is
put together from two has the names of both, and how its lines end does not matter.
-/

namespace Broadcast

/-- A name stands behind the first quote of the third part of a line. -/
def Declares (line : List Char) (name : String) : Prop :=
  ∃ part, IsThird part line ∧ (Quotes part name.toList ∨ Opens part name.toList)

namespace Category

/-- A line has the keyword of a category and `.name` in it. -/
def Mentions (c : Category) (line : List Char) : Prop :=
  c.keyword.toList <:+: line ∧ ".name".toList <:+: line

instance (c : Category) (line : List Char) : Decidable (c.Mentions line) :=
  decidable_of_iff (c.isCandidate line = true) isCandidate_iff

def skipped (c : Category) (number : Nat) : Record :=
  ⟨.trace, "bct_core::presets::extract", "Skipping malformed " ++ c.keyword ++ " line",
    [("line", Nat.repr number), ("policy", "SkipSilently")]⟩

/-- The names and the records that lines give, the first of them having a number. -/
inductive Scans (c : Category) : Nat → List (List Char) → List String → List Record → Prop
  | nil {number : Nat} : Scans c number [] [] []
  | named {number : Nat} {line : List Char} {rest : List (List Char)} {name : String} {names : List String}
      {records : List Record} : c.Mentions line → Declares line name → Scans c (number + 1) rest names records →
      Scans c number (line :: rest) (name :: names) records
  | malformed {number : Nat} {line : List Char} {rest : List (List Char)} {names : List String}
      {records : List Record} : c.Mentions line → (∀ name, ¬ Declares line name) →
      Scans c (number + 1) rest names records → Scans c number (line :: rest) names (c.skipped number :: records)
  | idle {number : Nat} {line : List Char} {rest : List (List Char)} {names : List String} {records : List Record} :
      ¬ c.Mentions line → Scans c (number + 1) rest names records → Scans c number (line :: rest) names records

theorem nameIn?_eq_some_iff_declares {c : Category} {line : List Char} {name : String} :
    c.nameIn? line = some name ↔ c.Mentions line ∧ Declares line name := by
  rw [nameIn?_eq_some, isCandidate_iff]
  rfl

theorem findingIn?_of_named {c : Category} {number : Nat} {line : List Char} {name : String}
    (h : c.nameIn? line = some name) : c.findingIn? number line = some (.name name) := by
  rw [findingIn?, h]

theorem findingIn?_of_malformed {c : Category} {number : Nat} {line : List Char} (hn : c.nameIn? line = none)
    (hm : c.Mentions line) : c.findingIn? number line = some (.malformed number) := by
  rw [findingIn?, hn]
  exact if_pos (isCandidate_iff.mpr hm)

theorem findingIn?_of_idle {c : Category} {number : Nat} {line : List Char} (hm : ¬ c.Mentions line) :
    c.findingIn? number line = none := by
  have hc : ¬ c.isCandidate line = true := fun h => hm (isCandidate_iff.mp h)
  have hn : c.nameIn? line = none := if_neg hc
  rw [findingIn?, hn]
  exact if_neg hc

theorem scans_findings (c : Category) (ls : List (List Char)) : ∀ number,
    c.Scans number ls ((c.findings number ls).filterMap Finding.name?)
      ((c.findings number ls).filterMap (Finding.record? c)) := by
  induction ls with
  | nil => exact fun _ => .nil
  | cons line ls ih =>
    intro number
    rw [findings]
    by_cases hm : c.Mentions line
    · cases hn : c.nameIn? line with
      | some name =>
        rw [findingIn?_of_named hn]
        exact .named hm (nameIn?_eq_some_iff_declares.mp hn).2 (ih (number + 1))
      | none =>
        rw [findingIn?_of_malformed hn hm]
        refine .malformed hm (fun name hd => ?_) (ih (number + 1))
        rw [nameIn?_eq_some_iff_declares.mpr ⟨hm, hd⟩] at hn
        cases hn
    · rw [findingIn?_of_idle hm]
      exact .idle hm (ih (number + 1))

namespace Scans

variable {c : Category} {number : Nat} {ls : List (List Char)} {names : List String} {records : List Record}

theorem unique (h : c.Scans number ls names records) : ∀ {names' : List String} {records' : List Record},
    c.Scans number ls names' records' → names' = names ∧ records' = records := by
  induction h with
  | nil =>
    intro _ _ h'
    cases h'
    exact ⟨rfl, rfl⟩
  | named hm hd _ ih =>
    intro _ _ h'
    cases h' with
    | named _ hd' h' =>
      have hname := (nameIn?_eq_some_iff_declares.mpr ⟨hm, hd'⟩).symm.trans (nameIn?_eq_some_iff_declares.mpr ⟨hm, hd⟩)
      obtain ⟨rfl, rfl⟩ := ih h'
      rw [Option.some.inj hname]
      exact ⟨rfl, rfl⟩
    | malformed _ hno _ => exact absurd hd (hno _)
    | idle hm' _ => exact absurd hm hm'
  | malformed hm hno _ ih =>
    intro _ _ h'
    cases h' with
    | named _ hd' _ => exact absurd hd' (hno _)
    | malformed _ _ h' =>
      obtain ⟨rfl, rfl⟩ := ih h'
      exact ⟨rfl, rfl⟩
    | idle hm' _ => exact absurd hm hm'
  | idle hm _ ih =>
    intro _ _ h'
    cases h' with
    | named hm' _ _ => exact absurd hm' hm
    | malformed hm' _ _ => exact absurd hm' hm
    | idle _ h' => exact ih h'

theorem length_eq (h : c.Scans number ls names records) :
    names.length + records.length = ls.countP fun line => c.Mentions line := by
  induction h with
  | nil => rfl
  | named hm _ _ ih => rw [List.countP_cons_of_pos (by simpa using hm), List.length_cons]; omega
  | malformed hm _ _ ih => rw [List.countP_cons_of_pos (by simpa using hm), List.length_cons]; omega
  | idle hm _ ih => rw [List.countP_cons_of_neg (by simpa using hm), ih]

theorem numbers (h : c.Scans number ls names records) :
    ∃ numbers : List Nat, records = numbers.map c.skipped ∧ numbers.Pairwise (· < ·) ∧ ∀ n ∈ numbers, number ≤ n := by
  induction h with
  | nil => exact ⟨[], rfl, .nil, fun _ hn => by cases hn⟩
  | named _ _ _ ih =>
    obtain ⟨numbers, hr, hp, hle⟩ := ih
    exact ⟨numbers, hr, hp, fun n hn => Nat.le_of_succ_le (hle n hn)⟩
  | @malformed number _ _ _ _ _ _ _ ih =>
    obtain ⟨numbers, hr, hp, hle⟩ := ih
    refine ⟨number :: numbers, by rw [hr, List.map_cons], .cons hle hp, fun n hn => ?_⟩
    rcases List.mem_cons.mp hn with rfl | hn
    · exact Nat.le_refl n
    · exact Nat.le_of_succ_le (hle n hn)
  | idle _ _ ih =>
    obtain ⟨numbers, hr, hp, hle⟩ := ih
    exact ⟨numbers, hr, hp, fun n hn => Nat.le_of_succ_le (hle n hn)⟩

end Scans

/-! ## Texts -/

theorem nameIn?_nil (c : Category) : c.nameIn? [] = none := by cases c <;> rfl

theorem names_append (c : Category) {a : String} (h : a.toList.getLast? ≠ some '\r') (b : String) :
    c.names (a ++ "\n" ++ b) = c.names a ++ c.names b := by
  have hchars : (a ++ "\n" ++ b).toList = a.toList ++ '\n' :: b.toList := by simp
  rw [names_eq, names_eq, names_eq, hchars]
  rcases (linesOf_lines a.toList).append h (linesOf_lines b.toList) with hl | hl
  · rw [hl.lines_eq, List.filterMap_append]
  · -- the empty line between the texts has no name
    rw [hl.lines_eq, List.filterMap_append, List.filterMap_cons, nameIn?_nil]

theorem findingsIn_withReturns (c : Category) {text : String} (h : '\r' ∉ text.toList) :
    c.findingsIn (String.ofList (withReturns text.toList)) = c.findingsIn text := by
  rw [findingsIn, findingsIn, String.toList_ofList, ((linesOf_lines text.toList).withReturns h).lines_eq]

/-- **Every candidate is accounted for once.** Line by line, a candidate gives a name or is reported with its
number, and no other line gives anything. So names and reports are as many as the candidates, and the numbers go up.
The names of two texts with a line feed between them are those of the first and then those of the second, and other ends
of the lines change nothing. -/
theorem scans_text (c : Category) (text : String) :
    (∃ ls, LinesOf text.toList ls ∧
      (∀ names records, c.Scans 1 ls names records ↔ names = c.names text ∧ records = c.reports text) ∧
      (c.names text).length + (c.reports text).length = ls.countP fun line => c.Mentions line) ∧
    (∃ numbers : List Nat, c.reports text = numbers.map c.skipped ∧ numbers.Pairwise (· < ·)) ∧
    (text.toList.getLast? ≠ some '\r' → ∀ b, c.names (text ++ "\n" ++ b) = c.names text ++ c.names b) ∧
    ('\r' ∉ text.toList →
      c.names (String.ofList (withReturns text.toList)) = c.names text ∧
      c.reports (String.ofList (withReturns text.toList)) = c.reports text) := by
  have hscans : c.Scans 1 (lines text.toList) (c.names text) (c.reports text) := c.scans_findings _ 1
  obtain ⟨numbers, hr, hp, -⟩ := hscans.numbers
  refine ⟨⟨lines text.toList, linesOf_lines _, fun names records => ⟨hscans.unique, ?_⟩, hscans.length_eq⟩,
    ⟨numbers, hr, hp⟩, fun h b => c.names_append h b, fun h => ?_⟩
  · rintro ⟨rfl, rfl⟩
    exact hscans
  · unfold names reports
    rw [c.findingsIn_withReturns h]
    exact ⟨rfl, rfl⟩

/-- A line without the keyword, a candidate without a name, and one that has no line feed behind it. -/
theorem scans_text_unnamed :
    "// .name\npreset.name\npreset.name = x = \"8_2_1\"".toList.getLast? ≠ some '\r' ∧
    '\r' ∉ "// .name\npreset.name\npreset.name = x = \"8_2_1\"".toList ∧
    preset.names ("// .name\npreset.name\npreset.name = x = \"8_2_1\"" ++ "\n" ++ "\npreset.name = x = \"9\"\n") =
      ["8_2_1", "9"] ∧
    preset.reports (String.ofList (withReturns "// .name\npreset.name\npreset.name = x = \"8_2_1\"".toList)) =
      [preset.skipped 2] := by
  have hlast : "// .name\npreset.name\npreset.name = x = \"8_2_1\"".toList.getLast? ≠ some '\r' := by decide
  have hreturn : '\r' ∉ "// .name\npreset.name\npreset.name = x = \"8_2_1\"".toList := by decide
  obtain ⟨-, -, happend, hends⟩ := scans_text preset "// .name\npreset.name\npreset.name = x = \"8_2_1\""
  refine ⟨hlast, hreturn, (happend hlast _).trans (by decide +kernel), (hends hreturn).2.trans (by decide +kernel)⟩

end Category

end Broadcast
