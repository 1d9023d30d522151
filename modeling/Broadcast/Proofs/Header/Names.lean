import Broadcast.Header.Scan
import Broadcast.Proofs.Text.Pieces

/-!
# Where a name stands in its line

A name stands behind the first quote of the third part of a line. It goes on to
the next quote, and where there is none, to the end of the part. So a name that
has an equals sign in it is cut off there, and a string that is never closed is
a name as well.
-/

namespace Broadcast

/-- The part of a line between the second equals sign and the third, or the end. -/
def IsThird (part line : List Char) : Prop :=
  ∃ a b, '=' ∉ a ∧ '=' ∉ b ∧ '=' ∉ part ∧
    (line = a ++ '=' :: (b ++ '=' :: part) ∨ ∃ rest, line = a ++ '=' :: (b ++ '=' :: (part ++ '=' :: rest)))

def Quotes (part name : List Char) : Prop :=
  ∃ before after, '"' ∉ before ∧ '"' ∉ name ∧ part = before ++ '"' :: (name ++ '"' :: after)

def Opens (part name : List Char) : Prop :=
  ∃ before, '"' ∉ before ∧ '"' ∉ name ∧ part = before ++ '"' :: name

theorem field?_third_iff {part line : List Char} : field? '=' 2 line = some part ↔ IsThird part line := by
  simp only [field?_succ_iff, field?_zero_iff]
  constructor
  · rintro ⟨a, _, ha, rfl, b, rest, hb, rfl, hp, rfl | ⟨rest, rfl⟩⟩
    · exact ⟨a, b, ha, hb, hp, .inl rfl⟩
    · exact ⟨a, b, ha, hb, hp, .inr ⟨rest, rfl⟩⟩
  · rintro ⟨a, b, ha, hb, hp, rfl | ⟨rest, rfl⟩⟩
    · exact ⟨a, _, ha, rfl, b, part, hb, rfl, hp, .inl rfl⟩
    · exact ⟨a, _, ha, rfl, b, _, hb, rfl, hp, .inr ⟨rest, rfl⟩⟩

theorem IsThird.unique {part other line : List Char} (h : IsThird part line) (h' : IsThird other line) :
    part = other :=
  Option.some.inj ((field?_third_iff.mpr h).symm.trans (field?_third_iff.mpr h'))

theorem field?_quoted_iff {part name : List Char} :
    field? '"' 1 part = some name ↔ Quotes part name ∨ Opens part name := by
  simp only [field?_succ_iff, field?_zero_iff]
  constructor
  · rintro ⟨before, _, hb, rfl, hn, rfl | ⟨after, rfl⟩⟩
    · exact .inr ⟨before, hb, hn, rfl⟩
    · exact .inl ⟨before, after, hb, hn, rfl⟩
  · rintro (⟨before, after, hb, hn, rfl⟩ | ⟨before, hb, hn, rfl⟩)
    · exact ⟨before, _, hb, rfl, hn, .inr ⟨after, rfl⟩⟩
    · exact ⟨before, name, hb, rfl, hn, .inl rfl⟩

theorem Opens.count {part name : List Char} (h : Opens part name) : part.count '"' = 1 := by
  obtain ⟨before, hb, hn, rfl⟩ := h
  rw [List.count_append, List.count_cons_self, List.count_eq_zero_of_not_mem hb, List.count_eq_zero_of_not_mem hn]

theorem Quotes.count {part name : List Char} (h : Quotes part name) : 2 ≤ part.count '"' := by
  obtain ⟨before, after, -, -, rfl⟩ := h
  simp only [List.count_append, List.count_cons_self]
  omega

theorem exists_opens {part : List Char} (h : part.count '"' = 1) : ∃ name, Opens part name := by
  have hm : '"' ∈ part := List.count_pos_iff.mp (by omega)
  obtain ⟨before, name, rfl, hb⟩ := List.eq_append_cons_of_mem hm
  rw [List.count_append, List.count_cons_self] at h
  exact ⟨name, before, hb, List.count_eq_zero.mp (by omega), rfl⟩

namespace Category

theorem isCandidate_iff {c : Category} {line : List Char} :
    c.isCandidate line = true ↔ c.keyword.toList <:+: line ∧ ".name".toList <:+: line := by
  rw [isCandidate, Bool.and_eq_true, occurs_iff, occurs_iff]

theorem nameIn?_eq_some {c : Category} {line : List Char} {s : String} :
    c.nameIn? line = some s ↔ c.isCandidate line = true ∧
      ∃ part, IsThird part line ∧ (Quotes part s.toList ∨ Opens part s.toList) := by
  unfold nameIn?
  by_cases hc : c.isCandidate line = true
  · simp only [hc, ite_true, true_and, Option.map_eq_some_iff, Option.bind_eq_some_iff, field?_third_iff,
      field?_quoted_iff]
    constructor
    · rintro ⟨name, ⟨part, ht, hq⟩, rfl⟩
      rw [String.toList_ofList]
      exact ⟨part, ht, hq⟩
    · rintro ⟨part, ht, hq⟩
      exact ⟨s.toList, ⟨part, ht, hq⟩, String.ofList_toList⟩
  · simp [hc]

/-- **A name stands behind the first quote of the third part** of a line with the keyword and `.name`. It is the
text between the first two quotes, unless there is only one: then it is all that is behind that quote. -/
theorem nameIn?_eq_some_iff (c : Category) (line : List Char) (s : String) :
    (c.nameIn? line = some s ↔ (c.keyword.toList <:+: line ∧ ".name".toList <:+: line) ∧
      ∃ part, IsThird part line ∧ (Quotes part s.toList ∨ Opens part s.toList)) ∧
    (∀ part, IsThird part line → part.count '"' ≠ 1 →
      (c.nameIn? line = some s ↔
        (c.keyword.toList <:+: line ∧ ".name".toList <:+: line) ∧ Quotes part s.toList)) ∧
    (∀ part, IsThird part line → part.count '"' = 1 → c.keyword.toList <:+: line → ".name".toList <:+: line →
      ∃ name, c.nameIn? line = some name ∧ Opens part name.toList) := by
  have hall : ∀ name : String, c.nameIn? line = some name ↔
      (c.keyword.toList <:+: line ∧ ".name".toList <:+: line) ∧
        ∃ part, IsThird part line ∧ (Quotes part name.toList ∨ Opens part name.toList) := fun name => by
    rw [nameIn?_eq_some, isCandidate_iff]
  refine ⟨hall s, fun part ht hcount => ?_, fun part ht hcount hk hn => ?_⟩
  · rw [hall]
    refine and_congr_right fun _ => ⟨?_, fun hq => ⟨part, ht, .inl hq⟩⟩
    rintro ⟨other, ht', hq⟩
    rw [ht.unique ht'] at hcount ⊢
    exact hq.resolve_right fun ho => hcount ho.count
  · obtain ⟨name, ho⟩ := exists_opens hcount
    have ho : Opens part (String.ofList name).toList := by rwa [String.toList_ofList]
    exact ⟨String.ofList name, (hall _).mpr ⟨⟨hk, hn⟩, part, ht, .inr ho⟩, ho⟩

theorem nameIn?_between_quotes :
    preset.nameIn? "preset p = \x7b .name = \"16_2_1\" \x7d;".toList = some "16_2_1" := by
  have hthird : IsThird " \"16_2_1\" \x7d;".toList "preset p = \x7b .name = \"16_2_1\" \x7d;".toList :=
    field?_third_iff.mp (by decide +kernel)
  have hquotes : Quotes " \"16_2_1\" \x7d;".toList "16_2_1".toList :=
    ⟨" ".toList, " \x7d;".toList, by decide, by decide, rfl⟩
  refine ((nameIn?_eq_some_iff preset _ "16_2_1").2.1 _ hthird (by decide)).mpr ⟨⟨?_, ?_⟩, hquotes⟩
  · exact occurs_iff.mp (by decide +kernel)
  · exact occurs_iff.mp (by decide +kernel)

/-- A name with an equals sign in it: its closing quote is in the fourth part, and what is before the sign is
taken for the name. -/
theorem nameIn?_cut_off :
    preset.nameIn? "preset p = \x7b .name = \"a=b\" \x7d;".toList = some "a" ∧
      IsThird " \"a".toList "preset p = \x7b .name = \"a=b\" \x7d;".toList ∧
      ¬ (preset.nameIn? "preset p = \x7b .name = \"a=b\" \x7d;".toList = some "a" ↔
        (preset.keyword.toList <:+: "preset p = \x7b .name = \"a=b\" \x7d;".toList ∧
          ".name".toList <:+: "preset p = \x7b .name = \"a=b\" \x7d;".toList) ∧
        ∃ part, IsThird part "preset p = \x7b .name = \"a=b\" \x7d;".toList ∧ Quotes part "a".toList) := by
  have hname : preset.nameIn? "preset p = \x7b .name = \"a=b\" \x7d;".toList = some "a" := by decide +kernel
  have hthird : IsThird " \"a".toList "preset p = \x7b .name = \"a=b\" \x7d;".toList :=
    field?_third_iff.mp (by decide +kernel)
  refine ⟨hname, hthird, fun h => ?_⟩
  obtain ⟨-, part, ht, hq⟩ := h.mp hname
  -- two quotes do not fit into a part with one
  have hcount := hq.count
  rw [← hthird.unique ht] at hcount
  exact absurd hcount (by decide)

end Category

end Broadcast
