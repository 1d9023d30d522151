import Broadcast.Proofs.Toml.SheetReading
import Mathlib.Tactic.SplitIfs

/-!
# The text between the parts, again

What was read as a gap or as the rest of a line is read as the same when it stands
in another text, as long as that goes on with a part or ends the line. Carriage
returns have been dropped from it by then, and nothing depends on them.
-/

namespace Broadcast.Toml

def keptChars (cs : List Char) : List Char := cs.filter fun c => c != '\r'

theorem toList_kept (cs : List Char) : (kept cs).toList = keptChars cs := String.toList_ofList

theorem keptChars_cons {c : Char} (h : c ≠ '\r') (cs : List Char) : keptChars (c :: cs) = c :: keptChars cs :=
  List.filter_cons_of_pos (by simpa using h)

theorem keptChars_return (cs : List Char) : keptChars ('\r' :: cs) = keptChars cs := rfl

theorem keptChars_of_notMem {cs : List Char} (h : '\r' ∉ cs) : keptChars cs = cs := by
  refine List.filter_eq_self.mpr fun c hc => ?_
  have hr : c ≠ '\r' := fun he => h (he ▸ hc)
  simpa using hr

theorem take_used (used rest : List Char) : (used ++ rest).take ((used ++ rest).length - rest.length) = used := by
  rw [List.length_append, Nat.add_sub_cancel, List.take_left]

/-! ## Ends -/

def isSolid (c : Char) : Bool := c != '\n' && c != '\r' && c != '#' && !isBlank c

def IsSolid (cs : List Char) : Prop := ∃ c r, cs = c :: r ∧ isSolid c = true

def isBreak (c : Char) : Bool := !isSolid c || c = ',' || c = ']' || c = '\x7d'

def IsBreak (cs : List Char) : Prop :=
  ∃ c r, cs = c :: r ∧ isBreak c = true ∧ (c = ' ' → ∀ d ∈ r.head?, isBreak d = true)

theorem trivia_solid {cs : List Char} (h : IsSolid cs) : trivia false cs = some ([], cs) := by
  obtain ⟨c, r, rfl, hc⟩ := h
  simp only [isSolid, Bool.and_eq_true, bne_iff_ne, ne_eq, Bool.not_eq_true'] at hc
  exact trivia_stop hc.1.1.1 hc.1.1.2 hc.1.2 hc.2 r

/-! ## Gaps -/

/-- Blanks, line ends and whole comments. -/
def IsGap (t : List Char) : Prop := ∀ rest, IsSolid rest → trivia false (t ++ rest) = some (t, rest)

/-- A gap at the end of a document, where a comment need not end. -/
def IsTail (t : List Char) : Prop := trivia false t = some (t, [])

def IsRemark (t : List Char) : Prop := ∀ rest, remark false (t ++ '\n' :: rest) = some (t, rest)

/-- Whether a comment has begun behind a character that a gap goes on with. -/
def modeAfter (inComment : Bool) (c : Char) : Option Bool :=
  if c = '\n' then some false
  else if inComment then if isPlain c then some true else none
  else if c = '#' then some true
  else if isBlank c then some false
  else none

theorem ne_return_of_modeAfter {b b' : Bool} {c : Char} (h : modeAfter b c = some b') : c ≠ '\r' := by
  rintro rfl
  cases b <;> cases h

theorem trivia_of_modeAfter {b b' : Bool} {c : Char} (h : modeAfter b c = some b') (cs : List Char) :
    trivia b (c :: cs) = (trivia b' cs).map (keep c) := by
  have hr := ne_return_of_modeAfter h
  unfold modeAfter at h
  rw [trivia]
  split_ifs at h ⊢ <;> first | cases h; rfl | simp_all

theorem remark_of_modeAfter {b b' : Bool} {c : Char} (h : modeAfter b c = some b') (hn : c ≠ '\n') (cs : List Char) :
    remark b (c :: cs) = (remark b' cs).map (keep c) := by
  have hr := ne_return_of_modeAfter h
  unfold modeAfter at h
  rw [remark]
  split_ifs at h ⊢ <;> first | cases h; rfl | simp_all

theorem of_modeAfter_eq_none {b : Bool} {c : Char} (h : modeAfter b c = none) :
    c ≠ '\n' ∧ if b then isPlain c = false else c ≠ '#' ∧ isBlank c = false := by
  unfold modeAfter at h
  split_ifs at h <;> simp_all

theorem trivia_cons_cases {b : Bool} {c : Char} {cs g rest : List Char} (h : trivia b (c :: cs) = some (g, rest)) :
    (∃ b' g', modeAfter b c = some b' ∧ trivia b' cs = some (g', rest) ∧ g = c :: g') ∨
      (c = '\r' ∧ ∃ g', trivia b cs = some (g', rest) ∧ g = c :: g') ∨ (b = false ∧ g = [] ∧ rest = c :: cs) := by
  cases hm : modeAfter b c with
  | some b' =>
    rw [trivia_of_modeAfter hm] at h
    obtain ⟨⟨g', r⟩, hg, he⟩ := Option.map_eq_some_iff.mp h
    cases he
    exact .inl ⟨b', g', rfl, hg, rfl⟩
  | none =>
    refine .inr ?_
    obtain ⟨hn, hm⟩ := of_modeAfter_eq_none hm
    rw [trivia, if_neg hn] at h
    split at h
    · rename_i hr
      rw [Bool.and_eq_true, decide_eq_true_eq] at hr
      obtain ⟨⟨g', r⟩, hg, he⟩ := Option.map_eq_some_iff.mp h
      cases he
      exact .inl ⟨hr.1, g', hg, rfl⟩
    · cases b with
      | true => simp_all
      | false =>
        simp only [Bool.false_eq_true, ite_false] at hm h
        rw [if_neg hm.1, if_neg (Bool.eq_false_iff.mp hm.2)] at h
        cases h
        exact .inr ⟨rfl, rfl, rfl⟩

theorem remark_cons_cases {b : Bool} {c : Char} {cs r rest : List Char} (h : remark b (c :: cs) = some (r, rest)) :
    (c = '\n' ∧ r = [] ∧ rest = cs) ∨ (c = '\r' ∧ remark b cs = some (r, rest)) ∨
      c ≠ '\n' ∧ ∃ b' r', modeAfter b c = some b' ∧ remark b' cs = some (r', rest) ∧ r = c :: r' := by
  by_cases hn : c = '\n'
  · subst hn
    cases b <;> cases h <;> exact .inl ⟨rfl, rfl, rfl⟩
  · refine .inr ?_
    cases hm : modeAfter b c with
    | some b' =>
      rw [remark_of_modeAfter hm hn] at h
      obtain ⟨⟨r', _⟩, hr, he⟩ := Option.map_eq_some_iff.mp h
      cases he
      exact .inr ⟨hn, b', r', rfl, hr, rfl⟩
    | none =>
      obtain ⟨-, hm⟩ := of_modeAfter_eq_none hm
      rw [remark, if_neg hn] at h
      split at h
      · rename_i hr
        rw [Bool.and_eq_true, decide_eq_true_eq] at hr
        exact .inl ⟨hr.1, h⟩
      · cases b <;> simp_all

theorem trivia_again {b : Bool} {cs g rest rest' : List Char} (h : trivia b cs = some (g, rest))
    (hr : rest = [] ∧ rest' = [] ∨ rest ≠ [] ∧ IsSolid rest') :
    trivia b (keptChars g ++ rest') = some (keptChars g, rest') := by
  induction cs generalizing b g with
  | nil =>
    cases h
    rcases hr with ⟨-, rfl⟩ | ⟨hne, -⟩
    · rfl
    · exact absurd rfl hne
  | cons c cs ih =>
    rcases trivia_cons_cases h with ⟨b', g', hm, hg, rfl⟩ | ⟨rfl, g', hg, rfl⟩ | ⟨rfl, rfl, rfl⟩
    · rw [keptChars_cons (ne_return_of_modeAfter hm), List.cons_append, trivia_of_modeAfter hm, ih hg]
      rfl
    · rw [keptChars_return]
      exact ih hg
    · rcases hr with ⟨he, -⟩ | ⟨-, hs⟩
      · cases he
      · exact trivia_solid hs

theorem isGap_of_trivia {cs g rest : List Char} (h : trivia false cs = some (g, rest)) (hr : rest ≠ []) :
    IsGap (kept g).toList := by
  intro rest' hs
  rw [toList_kept]
  exact trivia_again h (.inr ⟨hr, hs⟩)

theorem isTail_of_trivia {cs g : List Char} (h : trivia false cs = some (g, [])) : IsTail (kept g).toList := by
  have ht : trivia false (keptChars g ++ []) = some (keptChars g, []) := trivia_again h (.inl ⟨rfl, rfl⟩)
  rw [List.append_nil] at ht
  rw [toList_kept]
  exact ht

theorem isGap_nil : IsGap [] := fun _ hs => trivia_solid hs

theorem isGap_newline : IsGap ['\n'] := by
  intro rest hs
  rw [List.cons_append, trivia_newline, List.nil_append, trivia_solid hs]
  rfl

theorem isRemark_of_remark {cs r rest : List Char} (h : remark false cs = some (r, rest)) :
    IsRemark (kept r).toList := by
  have again : ∀ (cs r : List Char) (b : Bool), remark b cs = some (r, rest) → ∀ rest',
      remark b (keptChars r ++ '\n' :: rest') = some (keptChars r, rest') := by
    intro cs
    induction cs with
    | nil => intro r b h rest'; cases h; cases b <;> rfl
    | cons c cs ih =>
      intro r b h rest'
      rcases remark_cons_cases h with ⟨rfl, rfl, rfl⟩ | ⟨rfl, hr⟩ | ⟨hn, b', r', hm, hr, rfl⟩
      · cases b <;> rfl
      · exact ih r b hr rest'
      · rw [keptChars_cons (ne_return_of_modeAfter hm), List.cons_append, remark_of_modeAfter hm hn, ih r' b' hr]
        rfl
  intro rest'
  rw [toList_kept]
  exact again cs r false h rest'

theorem isRemark_nil : IsRemark [] := fun _ => rfl

theorem modeAfter_blank {c : Char} (h : isBlank c = true) : modeAfter false c = some false := by
  unfold isBlank at h
  simp only [Bool.or_eq_true, decide_eq_true_eq] at h
  rcases h with rfl | rfl <;> rfl

theorem isGap_of_blanks {t : List Char} (h : ∀ c ∈ t, isBlank c = true) : IsGap t := by
  intro rest hr
  induction t with
  | nil => exact trivia_solid hr
  | cons c t ih =>
    rw [List.forall_mem_cons] at h
    rw [List.cons_append, trivia_of_modeAfter (modeAfter_blank h.1), ih h.2]
    rfl

theorem trivia_dropBlanks {cs g rest : List Char} (h : trivia false cs = some (g, rest)) :
    ∃ g', trivia false (blanks cs).2 = some (g', rest) := by
  unfold blanks
  induction cs generalizing g with
  | nil => exact ⟨g, h⟩
  | cons c cs ih =>
    by_cases hc : isBlank c = true
    · rw [trivia_of_modeAfter (modeAfter_blank hc)] at h
      obtain ⟨⟨g', r⟩, hg, he⟩ := Option.map_eq_some_iff.mp h
      cases he
      rw [List.dropWhile_cons_of_pos hc]
      exact ih hg
    · rw [List.dropWhile_cons_of_neg hc]
      exact ⟨g, h⟩

/-! ## What stands behind a value -/

theorem isBreak_of_modeAfter {b : Bool} {c : Char} (h : modeAfter false c = some b) : isBreak c = true := by
  unfold modeAfter at h
  unfold isBreak isSolid
  split_ifs at h <;> simp_all

theorem isBreak_of_remark {c : Char} {cs : List Char} {r : List Char × List Char}
    (h : remark false (c :: cs) = some r) :
    isBreak c = true := by
  rcases remark_cons_cases h with ⟨rfl, -⟩ | ⟨rfl, -⟩ | ⟨-, b, r', hm, -⟩
  · rfl
  · rfl
  · exact isBreak_of_modeAfter hm

theorem isBreak_of_trivia {c d : Char} {cs g rest : List Char} (h : trivia false (c :: cs) = some (d :: g, rest)) :
    isBreak c = true := by
  rcases trivia_cons_cases h with ⟨b, g', hm, -⟩ | ⟨rfl, -⟩ | ⟨-, he, -⟩
  · exact isBreak_of_modeAfter hm
  · rfl
  · cases he

theorem IsRemark.isBreak {t : List Char} (h : IsRemark t) (rest : List Char) : IsBreak (t ++ '\n' :: rest) := by
  rcases t with _ | ⟨c, t⟩
  · exact ⟨'\n', rest, rfl, rfl, fun he => by cases he⟩
  · refine ⟨c, t ++ '\n' :: rest, rfl, isBreak_of_remark (h rest), ?_⟩
    rintro rfl d hd
    -- behind a blank the line goes on in the same way
    have hr : remark false (t ++ '\n' :: rest) ≠ none := by
      intro hn
      have h' := h rest
      rw [List.cons_append, remark_of_modeAfter (modeAfter_blank rfl) (by decide), hn] at h'
      cases h'
    obtain ⟨r, hr⟩ := Option.ne_none_iff_exists'.mp hr
    rcases hcs : t ++ '\n' :: rest with _ | ⟨e, cs⟩
    · rw [hcs] at hd; cases hd
    · rw [hcs] at hd hr
      cases hd
      exact isBreak_of_remark hr

theorem IsGap.isBreak {t : List Char} (h : IsGap t) {c : Char} (hs : isSolid c = true) (hc : Toml.isBreak c = true)
    (rest : List Char) : IsBreak (t ++ c :: rest) := by
  have solid : IsSolid (c :: rest) := ⟨c, rest, rfl, hs⟩
  rcases t with _ | ⟨d, t⟩
  · exact ⟨c, rest, rfl, hc, fun he => by rw [he] at hs; cases hs⟩
  · refine ⟨d, t ++ c :: rest, rfl, isBreak_of_trivia (h _ solid), ?_⟩
    rintro rfl e he
    have ht : trivia false (t ++ c :: rest) = some (t, c :: rest) := by
      have h' := h _ solid
      rw [List.cons_append, trivia_of_modeAfter (modeAfter_blank rfl)] at h'
      obtain ⟨⟨g, r⟩, hg, hk⟩ := Option.map_eq_some_iff.mp h'
      cases hk
      exact hg
    rcases t with _ | ⟨f, t⟩
    · cases he; exact hc
    · cases he; exact isBreak_of_trivia ht

end Broadcast.Toml
