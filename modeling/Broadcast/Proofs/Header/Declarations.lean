import Broadcast.Header.Vocabulary
import Broadcast.Proofs.Header.Names

/-!
# Headers of declarations

A header that has a name declared on each line, and between them other lines that
are no candidates, is scanned for exactly these names: each comes once for every
line that declares it, in the order of the lines and in the list of its category.
What stands behind a name on its line, and how the lines end, makes no difference.
-/

namespace Broadcast

theorem Category.mem_all (c : Category) : c ∈ all := by cases c <;> decide

structure Declaration where
  category : Category
  type : List Char
  ident : List Char
  name : String
  tail : List Char

namespace Declaration

def line (d : Declaration) : List Char :=
  (d.type ++ ' ' :: (d.ident ++ (" = \x7b .name = \"".toList ++ d.name.toList))) ++ '"' :: d.tail

/-- A declaration on one line, of which no part can be taken for something else. -/
structure IsProper (d : Declaration) : Prop where
  type : '=' ∉ d.type
  ident : '=' ∉ d.ident
  name : '"' ∉ d.name.toList ∧ '=' ∉ d.name.toList
  tail : d.tail.getLast? ≠ some '\r'
  oneLine : '\n' ∉ d.line
  keyword : ∀ c : Category, c.keyword.toList <:+: d.line ↔ c = d.category

instance (d : Declaration) : Decidable d.IsProper :=
  decidable_of_iff (('=' ∉ d.type ∧ '=' ∉ d.ident ∧ '"' ∉ d.name.toList ∧ '=' ∉ d.name.toList) ∧
      (d.tail.getLast? ≠ some '\r' ∧ '\n' ∉ d.line) ∧
      ∀ c ∈ Category.all, occurs c.keyword.toList d.line = true ↔ c = d.category) <| by
    simp only [occurs_iff]
    constructor
    · rintro ⟨⟨ht, hi, hn⟩, ⟨hr, hl⟩, hk⟩
      exact ⟨ht, hi, hn, hr, hl, fun c => hk c c.mem_all⟩
    · rintro ⟨ht, hi, hn, hr, hl, hk⟩
      exact ⟨⟨ht, hi, hn⟩, ⟨hr, hl⟩, fun c _ => hk c⟩

theorem dotName_isInfix (d : Declaration) : ".name".toList <:+: d.line :=
  ⟨d.type ++ ' ' :: (d.ident ++ " = \x7b ".toList), " = \"".toList ++ (d.name.toList ++ '"' :: d.tail),
    by simp [line]⟩

namespace IsProper

variable {d : Declaration} (h : d.IsProper)
include h

theorem third : ∃ part, IsThird part d.line ∧ Quotes part d.name.toList := by
  obtain ⟨hq, he⟩ := h.name
  -- the part ends where the tail does, or at an equals sign in it
  obtain ⟨ha, htail⟩ := field?_zero_iff.mp (rfl : field? '=' 0 d.tail = some (cut '=' d.tail).1)
  generalize (cut '=' d.tail).1 = a at ha htail
  have hpart : '=' ∉ ' ' :: '"' :: (d.name.toList ++ '"' :: a) := by simp [he, ha]
  refine ⟨' ' :: '"' :: (d.name.toList ++ '"' :: a), ?_, [' '], a, by decide, hq, rfl⟩
  refine ⟨d.type ++ ' ' :: (d.ident ++ [' ']), " \x7b .name ".toList, by simp [h.type, h.ident], by decide, hpart, ?_⟩
  unfold line
  rcases htail with hend | ⟨rest, hmore⟩
  · left
    rw [hend]
    simp
  · right
    exact ⟨rest, by rw [hmore]; simp⟩

theorem nameIn?_line (c : Category) : c.nameIn? d.line = if d.category = c then some d.name else none := by
  by_cases hc : d.category = c
  · obtain ⟨part, ht, hq⟩ := h.third
    have hcand : c.isCandidate d.line = true :=
      Category.isCandidate_iff.mpr ⟨(h.keyword c).mpr hc.symm, d.dotName_isInfix⟩
    rw [if_pos hc]
    exact Category.nameIn?_eq_some.mpr ⟨hcand, part, ht, .inl hq⟩
  · have hcand : ¬ c.isCandidate d.line = true := fun hcand =>
      hc ((h.keyword c).mp (Category.isCandidate_iff.mp hcand).1).symm
    rw [if_neg hc]
    exact if_neg hcand

theorem dropReturn_line : dropReturn d.line = d.line := by
  refine dropReturn_of_getLast? fun hl => h.tail ?_
  rw [line, List.getLast?_append, List.getLast?_cons] at hl
  cases ht : d.tail.getLast? with
  | none => rw [ht] at hl; cases hl
  | some c => rw [ht] at hl; exact hl

end IsProper

end Declaration

/-- A line that is no candidate of any category. -/
structure IsIdle (line : List Char) : Prop where
  oneLine : '\n' ∉ line
  lacks : ¬ ".name".toList <:+: line ∨ ∀ c : Category, ¬ c.keyword.toList <:+: line

instance (line : List Char) : Decidable (IsIdle line) :=
  decidable_of_iff ('\n' ∉ line ∧ (occurs ".name".toList line = false ∨
      ∀ c ∈ Category.all, occurs c.keyword.toList line = false)) <| by
    simp only [← Bool.not_eq_true, occurs_iff]
    exact ⟨fun ⟨hl, h⟩ => ⟨hl, h.imp_right fun hk c => hk c c.mem_all⟩,
      fun h => ⟨h.oneLine, h.lacks.imp_right fun hk c _ => hk c⟩⟩

theorem IsIdle.nameIn?_of_isInfix {line part : List Char} (h : IsIdle line) (hp : part <:+: line) (c : Category) :
    c.nameIn? part = none := by
  refine if_neg fun hcand => ?_
  obtain ⟨hk, hn⟩ := Category.isCandidate_iff.mp hcand
  exact h.lacks.elim (fun hl => hl (hn.trans hp)) fun hl => hl c (hk.trans hp)

/-! ## Headers -/

inductive Row where
  | declaration (d : Declaration) (h : d.IsProper)
  | idle (line : List Char) (h : IsIdle line)

namespace Row

def line : Row → List Char
  | declaration d _ => d.line
  | idle line _ => line

def name? (c : Category) : Row → Option String
  | declaration d _ => if d.category = c then some d.name else none
  | idle .. => none

theorem newline_notMem_line (r : Row) : '\n' ∉ r.line := by
  cases r with
  | declaration d h => exact h.oneLine
  | idle line h => exact h.oneLine

theorem nameIn?_line (r : Row) (c : Category) : c.nameIn? r.line = r.name? c := by
  cases r with
  | declaration d h => exact h.nameIn?_line c
  | idle line h => exact h.nameIn?_of_isInfix (List.infix_refl line) c

theorem nameIn?_dropReturn (r : Row) (c : Category) : c.nameIn? (dropReturn r.line) = r.name? c := by
  cases r with
  | declaration d h => exact (congrArg c.nameIn? h.dropReturn_line).trans (h.nameIn?_line c)
  | idle line h => exact h.nameIn?_of_isInfix (isInfix_dropReturn line) c

end Row

inductive LineEnd where
  | feed
  | returnFeed
  deriving DecidableEq, Repr

def LineEnd.chars : LineEnd → List Char
  | feed => ['\n']
  | returnFeed => ['\r', '\n']

/-- A header row by row. Only behind the last row an end may be missing. -/
structure Header where
  rows : List (Row × LineEnd)
  last? : Option Row

namespace Header

def chars (h : Header) : List Char :=
  h.rows.flatMap (fun r => r.1.line ++ r.2.chars) ++ (h.last?.map Row.line).getD []

def text (h : Header) : String := String.ofList h.chars

def names (h : Header) (c : Category) : List String :=
  (h.rows.map (·.1) ++ h.last?.toList).filterMap (Row.name? c)

end Header

namespace Category

theorem filterMap_findings (c : Category) (ls : List (List Char)) : ∀ number,
    (c.findings number ls).filterMap Finding.name? = ls.filterMap c.nameIn? := by
  induction ls with
  | nil => exact fun _ => rfl
  | cons line ls ih =>
    intro number
    rw [findings, List.filterMap_append, ih, List.filterMap_cons, findingIn?]
    cases c.nameIn? line with
    | some s => rfl
    | none => cases c.isCandidate line <;> rfl

theorem names_eq (c : Category) (text : String) : c.names text = (lines text.toList).filterMap c.nameIn? :=
  c.filterMap_findings _ 1

end Category

theorem Row.lines_append (r : Row) (e : LineEnd) (rest : List Char) :
    ∃ line, lines (r.line ++ e.chars ++ rest) = line :: lines rest ∧ ∀ c : Category, c.nameIn? line = r.name? c := by
  cases e with
  | feed =>
    refine ⟨dropReturn r.line, ?_, r.nameIn?_dropReturn⟩
    rw [List.append_assoc]
    exact lines_append_newline r.newline_notMem_line rest
  | returnFeed =>
    refine ⟨r.line, ?_, r.nameIn?_line⟩
    rw [List.append_assoc]
    exact lines_append_returnFeed r.newline_notMem_line rest

theorem Row.filterMap_lines (r : Row) (c : Category) :
    (lines r.line).filterMap c.nameIn? = [r].filterMap (name? c) := by
  have hr : [r].filterMap (name? c) = [r.line].filterMap c.nameIn? := by
    rw [List.filterMap_cons, List.filterMap_cons, r.nameIn?_line]
    rfl
  rw [lines_of_notMem r.newline_notMem_line, hr]
  split
  · -- an empty last line is no line, but it has no name either
    rename_i he
    rw [List.isEmpty_iff.mp he]
    cases c <;> rfl
  · rfl

theorem Header.names_text (h : Header) (c : Category) : c.names h.text = h.names c := by
  obtain ⟨rows, last?⟩ := h
  rw [Category.names_eq, text, String.toList_ofList]
  unfold chars names
  simp only
  induction rows with
  | nil =>
    cases last? with
    | none => rfl
    | some r => exact r.filterMap_lines c
  | cons re rows ih =>
    obtain ⟨r, e⟩ := re
    rw [List.flatMap_cons, List.append_assoc]
    obtain ⟨line, hl, hn⟩ :=
      r.lines_append e (rows.flatMap (fun r => r.1.line ++ r.2.chars) ++ (last?.map Row.line).getD [])
    rw [hl, List.filterMap_cons, hn, ih, List.map_cons, List.cons_append, List.filterMap_cons]

/-- **A header of declarations is scanned for the names declared in it**, in the order of its lines. -/
theorem Vocabulary.ofText_text (h : Header) :
    ofText h.text =
      ⟨notSet :: customName :: h.names .preset, notSet :: h.names .context, notSet :: h.names .location⟩ := by
  unfold ofText
  rw [h.names_text, h.names_text, h.names_text]

/-- Both ends of lines, a name that is declared twice, tails with more signs and quotes, and idle lines with a
keyword or with `.name`. -/
theorem Vocabulary.ofText_text_mixed : ∃ h : Header,
    h.text = "// preset names\r\nstruct preset p = \x7b .name = \"16_2_1\", .id = \"=\" \x7d;\nint x; // .name\n" ++
      "struct context c = \x7b .name = \"Media\" \x7d;\r\nstruct preset q = \x7b .name = \"16_2_1\"" ∧
    ofText h.text = ⟨[notSet, customName, "16_2_1", "16_2_1"], [notSet, "Media"], [notSet]⟩ := by
  let h : Header := {
    rows := [(.idle "// preset names".toList (by decide +kernel), .returnFeed),
      (.declaration ⟨.preset, "struct preset".toList, "p".toList, "16_2_1", ", .id = \"=\" \x7d;".toList⟩
        (by decide +kernel), .feed),
      (.idle "int x; // .name".toList (by decide +kernel), .feed),
      (.declaration ⟨.context, "struct context".toList, "c".toList, "Media", " \x7d;".toList⟩ (by decide +kernel),
        .returnFeed)]
    last? := some (.declaration ⟨.preset, "struct preset".toList, "q".toList, "16_2_1", []⟩ (by decide +kernel)) }
  have hnames : (⟨notSet :: customName :: h.names .preset, notSet :: h.names .context,
      notSet :: h.names .location⟩ : Vocabulary) =
        ⟨[notSet, customName, "16_2_1", "16_2_1"], [notSet, "Media"], [notSet]⟩ := by
    decide +kernel
  exact ⟨h, by decide +kernel, (ofText_text h).trans hnames⟩

end Broadcast
