import Broadcast.Proofs.Toml.Keys
import Broadcast.Proofs.Toml.Spelling
import Mathlib.Tactic.Tauto

/-!
# Values, again

A value is read again from the text that is kept of it, with the same meaning, or
with the one that its text spells: a string of several lines may be misspelled.
-/

namespace Broadcast.Toml

/-! ## Reading again -/

def Node.body (n : Node) : List Char := (n.withMargin {}).text.toList

/-- A value that the reader finds again in its own text. -/
def Node.ReadsAgain (read : ReadNode) (n : Node) : Prop :=
  ∀ rest, IsBreak rest → ∃ n', read (n.body ++ rest) = some (n', rest) ∧ n'.core = n.core

structure Node.IsRead (read : ReadNode) (n : Node) : Prop where
  value : n.isValue = true
  plain : n.withMargin {} = n
  spelled : n.respelled.misspells = false
  reads : n.respelled.ReadsAgain read

theorem Node.IsRead.again {read : ReadNode} {n : Node} (h : n.IsRead read) (hd : n.misspells = false) :
    n.ReadsAgain read := by
  have hread := h.reads
  rw [respelled_of_spelled hd] at hread
  exact hread

theorem Node.IsRead.respelled {read : ReadNode} {n : Node} (h : n.IsRead read) : n.respelled.IsRead read where
  value := n.isValue_respelled.trans h.value
  plain := by rw [← respelled_withMargin, h.plain]
  spelled := by rw [respelled_respelled]; exact h.spelled
  reads := by rw [respelled_respelled]; exact h.reads

def startsValue (c : Char) : Bool := isTokenChar c || c = '[' || c = '\x7b'

/-- A reader of values that reads its values again. -/
structure ReadNode.IsGood (read : ReadNode) : Prop where
  nil : read [] = none
  starts : ∀ c cs r, read (c :: cs) = some r → startsValue c = true
  isRead : ∀ cs n rest, read cs = some (n, rest) → n.IsRead read

def Node.IsFramed (before after : List Char → Prop) (read : ReadNode) (n : Node) : Prop :=
  ∃ n₀ m, n = Node.withMargin m n₀ ∧ n₀.IsRead read ∧ before m.before.toList ∧ after m.after.toList

theorem Node.IsFramed.spelled {before after : List Char → Prop} {read : ReadNode} {n : Node}
    (h : n.IsFramed before after read) : n.respelled.misspells = false := by
  obtain ⟨n₀, m, rfl, hn, -⟩ := h
  rw [respelled_withMargin, misspells_withMargin]
  exact hn.spelled

theorem Node.IsFramed.respelled {before after : List Char → Prop} {read : ReadNode} {n : Node}
    (h : n.IsFramed before after read) : n.respelled.IsFramed before after read := by
  obtain ⟨n₀, m, rfl, hn, hm⟩ := h
  exact ⟨n₀.respelled, m, respelled_withMargin m n₀, hn.respelled, hm⟩

theorem isBreak_cases {c : Char} (h : isBreak c = true) :
    c ∈ ['\n', '\r', '#', ' ', '\t', ',', ']', '\x7d'] := by
  simp only [isBreak, isSolid, isBlank, Bool.or_eq_true, Bool.not_eq_true', Bool.and_eq_false_iff, bne_eq_false_iff_eq,
    Bool.not_eq_false', decide_eq_true_eq] at h
  simp only [List.mem_cons, List.not_mem_nil, or_false]
  tauto

theorem eq_false_of_isBreak {p : Char → Bool} {c : Char} (h : isBreak c = true)
    (hp : ['\n', '\r', '#', ' ', '\t', ',', ']', '\x7d'].any p = false) : p c = false :=
  Bool.eq_false_iff.mpr (List.any_eq_false.mp hp c (isBreak_cases h))

theorem isTokenChar_of_isBreak {c : Char} (h : isBreak c = true) : isTokenChar c = false :=
  eq_false_of_isBreak h (by decide)

theorem isDigit_of_isBreak {c : Char} (h : isBreak c = true) : isDigit c = false :=
  eq_false_of_isBreak h (by decide)

theorem isTokenChar_of_isDigit_toml {c : Char} (h : isDigit c = true) : isTokenChar c = true := by
  by_contra hc
  have hc' : c ∈ ['=', ',', '[', ']', '\x7b', '\x7d', ' ', '\t', '#', '\r', '\n'] := by
    simp only [isTokenChar, Bool.not_eq_true, Bool.not_eq_false', Bool.or_eq_true, decide_eq_true_eq] at hc
    simp only [List.mem_cons, List.not_mem_nil, or_false]
    tauto
  have hd : ['=', ',', '[', ']', '\x7b', '\x7d', ' ', '\t', '#', '\r', '\n'].any isDigit = false := by decide
  exact List.any_eq_false.mp hd c hc' h

theorem IsBreak.head_ne {cs : List Char} (h : IsBreak cs) : cs.head? ≠ some '"' ∧ cs.head? ≠ some '\'' := by
  obtain ⟨c, r, rfl, hc, -⟩ := h
  constructor <;> intro he <;> rw [List.head?_cons, Option.some.injEq] at he <;> subst he <;> cases hc

/-! ## Scalars -/

theorem span_token {t rest : List Char} (ht : ∀ c ∈ t, isTokenChar c = true)
    (hr : ∀ c ∈ rest.head?, isTokenChar c = false) :
    (t ++ rest).takeWhile isTokenChar = t ∧ (t ++ rest).dropWhile isTokenChar = rest := by
  rw [List.takeWhile_append_of_pos ht, List.dropWhile_append_of_pos ht]
  rcases rest with _ | ⟨c, rest⟩
  · simp
  · have hc := hr c rfl
    rw [List.takeWhile_cons_of_neg (by simp [hc]), List.dropWhile_cons_of_neg (by simp [hc]), List.append_nil]
    exact ⟨rfl, rfl⟩

theorem token_again {cs t rest : List Char} (h : token cs = (t, rest)) {rest' : List Char} (hr : IsBreak rest') :
    token (t ++ rest') = (t, rest') := by
  have hfirst : ∀ c ∈ cs.takeWhile isTokenChar, isTokenChar c = true := List.all_eq_true.mp List.all_takeWhile
  obtain ⟨c, r, rfl, hc, hblank⟩ := hr
  have hstop : ∀ d ∈ (c :: r).head?, isTokenChar d = false := by
    rintro d ⟨⟩
    exact isTokenChar_of_isBreak hc
  have plain (t : List Char) (ht : ∀ c ∈ t, isTokenChar c = true) : token (t ++ c :: r) = (t, c :: r) := by
    unfold token
    simp only [(span_token ht hstop).1, (span_token ht hstop).2]
    split
    · rename_i more he
      rw [List.cons.injEq] at he
      obtain ⟨rfl, rfl⟩ := he
      have hd : r.head?.any isDigit = false := by
        rcases r with _ | ⟨d, r⟩
        · rfl
        · exact isDigit_of_isBreak (hblank rfl d rfl)
      rw [hd, Bool.and_false]
      rfl
    · rfl
  unfold token at h
  simp only at h
  split at h
  · rename_i more hmore
    split at h
    · rename_i hdate
      cases h
      rw [Bool.and_eq_true] at hdate
      -- the time behind the blank is a token of its own, and it starts with a digit
      have htime : ∀ c ∈ more.takeWhile isTokenChar, isTokenChar c = true := List.all_eq_true.mp List.all_takeWhile
      have hdigit : (more.takeWhile isTokenChar ++ c :: r).head?.any isDigit = true := by
        rcases more with _ | ⟨d, more⟩
        · cases hdate.2
        · have hd : isDigit d = true := hdate.2
          rw [List.takeWhile_cons_of_pos (isTokenChar_of_isDigit_toml hd)]
          exact hd
      have hblank : ∀ d ∈ (' ' :: (more.takeWhile isTokenChar ++ c :: r)).head?, isTokenChar d = false := by
        rintro d ⟨⟩; rfl
      have hspan := span_token hfirst hblank
      rw [List.append_assoc, List.cons_append]
      unfold token
      simp only [hspan.1, hspan.2, (span_token htime hstop).1, (span_token htime hstop).2, hdate.1, hdigit,
        Bool.and_self, ite_true]
    · cases h
      exact plain _ hfirst
  · cases h
    exact plain _ hfirst

theorem grouped?_eq_none {c : Char} (h : digit? 10 c = none) (cs : List Char) : grouped? 10 (c :: cs) = none := by
  rcases cs with _ | ⟨d, cs⟩
  · simp [grouped?, h]
  · by_cases hd : d = '_'
    · subst hd; simp [grouped?, h]
    · rw [grouped?]
      · simp [h]
      · simp
      · rintro cs' he; exact hd (List.cons.inj he).1

theorem scalarOf?_quote {c : Char} (h : c = '"' ∨ c = '\'') (cs : List Char) : scalarOf? (c :: cs) = none := by
  have hd : digit? 10 c = none := by rcases h with rfl | rfl <;> decide
  have htwo (low high : Nat) : two? low high (c :: cs) = none := by
    rcases cs with _ | ⟨d, cs⟩
    · rfl
    · simp [two?, hd]
  have hdate : isDateTime (c :: cs) = false := by
    simp [isDateTime, date?, time?, htwo]
  have hdecimal (cs : List Char) : decimal? (c :: cs) = none := by
    simp [decimal?, grouped?_eq_none hd]
  have hint : integer? (c :: cs) = none := by
    rcases h with rfl | rfl <;> simp [integer?, hdecimal]
  have hfloat : isFloat (c :: cs) = false := by
    have hsplit (sep : Char → Bool) (hs : sep c = false) (cs : List Char) :
        ∃ r o, splitAt? sep (c :: cs) = (c :: r, o) := by
      unfold splitAt?
      split
      · exact ⟨cs, none, rfl⟩
      · rw [List.takeWhile_cons_of_pos (by simp [hs])]
        exact ⟨_, _, rfl⟩
    have hunsigned : unsigned (c :: cs) = c :: cs := by rcases h with rfl | rfl <;> rfl
    obtain ⟨mantissa, exponent, h₁⟩ := hsplit (fun c => c = 'e' || c = 'E') (by rcases h with rfl | rfl <;> rfl) cs
    obtain ⟨whole, fraction, h₂⟩ := hsplit (· = '.') (by rcases h with rfl | rfl <;> rfl) mantissa
    simp [isFloat, hunsigned, h₁, h₂, hdecimal]
  rcases h with rfl | rfl <;> simp [scalarOf?, hdate, hint, hfloat, isSpecialFloat, unsigned]

theorem body_scalar (v : Scalar) (t : String) (m : Margin) : (Node.scalar v t m).body = t.toList := by
  simp [Node.body, Node.withMargin, Node.text]

theorem scalar?_of_string {cs s rest : List Char} (h : string? cs = some (s, rest)) :
    scalar? cs = some (.scalar (.string (String.ofList s)) (kept (cs.take (cs.length - rest.length))) {}, rest) := by
  unfold scalar?
  rw [h]

theorem scalar?_of_token {cs t rest : List Char} {v : Scalar} (h : string? cs = none) (ht : token cs = (t, rest))
    (hv : scalarOf? t = some v) : scalar? cs = some (.scalar v (String.ofList t) {}, rest) := by
  unfold scalar?
  rw [h]
  simp only [ht, hv, Option.map_some]

theorem scalar?_cases {cs rest : List Char} {n : Node} (h : scalar? cs = some (n, rest)) :
    (∃ s, string? cs = some (s, rest) ∧
      n = .scalar (.string (String.ofList s)) (kept (cs.take (cs.length - rest.length))) {}) ∨
      string? cs = none ∧ ∃ t v, token cs = (t, rest) ∧ scalarOf? t = some v ∧ n = .scalar v (String.ofList t) {} := by
  unfold scalar? at h
  split at h
  · rename_i s rest₁ hs
    cases h
    exact .inl ⟨s, hs, rfl⟩
  · rename_i hs
    obtain ⟨t, rest₁, ht⟩ : ∃ t r, token cs = (t, r) := ⟨_, _, rfl⟩
    rw [ht] at h
    obtain ⟨v, hv, he⟩ := Option.map_eq_some_iff.mp h
    cases he
    exact .inr ⟨hs, t, v, ht, hv, rfl⟩

theorem scalarOf?_ne_string (t : List Char) (s : String) : scalarOf? t ≠ some (.string s) := by
  intro h
  unfold scalarOf? at h
  repeat' split at h
  all_goals cases h

/-- **A scalar is read again**, a string as its text spells it. -/
theorem scalar?_isRead {cs rest : List Char} {n : Node} (h : scalar? cs = some (n, rest)) : n.IsRead scalar? := by
  rcases scalar?_cases h with ⟨s, hs, rfl⟩ | ⟨-, t, v, ht, hv, rfl⟩
  · obtain ⟨used, rfl, hu⟩ := string?_local hs
    have hwhole := hu [] (by simp) (by simp)
    rw [List.append_nil] at hwhole
    rw [take_used]
    obtain ⟨s', hs', -⟩ := string?_keptChars hwhole
    rw [← toList_kept] at hs'
    obtain ⟨text, htext, hu'⟩ := string?_local hs'
    rw [List.append_nil] at htext
    refine ⟨rfl, rfl, ?_, fun rest' hr => ?_⟩
    · rw [Node.respelled, Scalar.spelled_of_string? hs', Node.misspells, hs', String.toList_ofList, bne_self_eq_false]
    · rw [Node.respelled, Scalar.spelled_of_string? hs', body_scalar, htext]
      exact ⟨_, scalar?_of_string (hu' rest' hr.head_ne.1 hr.head_ne.2), rfl⟩
  · have hspelled : (Node.scalar v (String.ofList t) {}).misspells = false := by
      cases v with
      | string s => exact absurd hv (scalarOf?_ne_string t s)
      | _ => rfl
    have hsame := Node.respelled_of_spelled hspelled
    refine ⟨rfl, rfl, by rw [hsame, hspelled], fun rest' hr => ?_⟩
    rw [hsame, body_scalar, String.toList_ofList]
    have hs' : string? (t ++ rest') = none := by
      rcases t with _ | ⟨c, t⟩
      · cases hv
      · refine string?_eq_none ?_ ?_ <;> intro he <;> rw [List.cons_append, List.head?_cons, Option.some.injEq] at he
        · rw [scalarOf?_quote (.inl he)] at hv; cases hv
        · rw [scalarOf?_quote (.inr he)] at hv; cases hv
    exact ⟨_, scalar?_of_token hs' (token_again ht hr) hv, rfl⟩

theorem token_of_not {c : Char} (h : isTokenChar c = false) (cs : List Char) : token (c :: cs) = ([], c :: cs) := by
  unfold token
  simp only [List.takeWhile_cons_of_neg (Bool.eq_false_iff.mp h), List.dropWhile_cons_of_neg (Bool.eq_false_iff.mp h)]
  split <;> rfl

theorem isTokenChar_of_scalar? {c : Char} {cs rest : List Char} {n : Node} (h : scalar? (c :: cs) = some (n, rest)) :
    isTokenChar c = true := by
  rcases scalar?_cases h with ⟨s, hs, -⟩ | ⟨-, t, v, ht, hv, -⟩
  · unfold string? at hs
    split at hs
    · rename_i he; rw [(List.cons.inj he).1]; rfl
    · rename_i he; rw [(List.cons.inj he).1]; rfl
    · cases hs
  · by_contra hc
    rw [token_of_not (Bool.eq_false_iff.mpr hc)] at ht
    cases ht
    cases hv

/-! ## The text of a value -/

theorem text_withMargin {n : Node} (h : n.isValue = true) (m : Margin) :
    (n.withMargin m).text.toList = m.before.toList ++ (n.body ++ m.after.toList) := by
  cases n with
  | scalar v t m' => simp [Node.body, Node.withMargin, Node.text]
  | array items comma tail m' => simp [Node.body, Node.withMargin, Node.text]
  | table form es => cases form with
    | inline => simp [Node.body, Node.withMargin, Node.text]
    | _ => cases h
  | tables elements => cases h

theorem isSolid_of_startsValue {c : Char} (h : startsValue c = true) : isSolid c = true := by
  by_contra hs
  have hb : isBreak c = true := by simp [isBreak, Bool.eq_false_iff.mpr hs]
  have hv : startsValue c = false := eq_false_of_isBreak hb (by decide)
  rw [h] at hv
  cases hv

theorem startsValue_ne {c d : Char} (h : startsValue c = true) (hd : startsValue d = false) : c ≠ d := by
  rintro rfl
  rw [h] at hd; cases hd

end Broadcast.Toml
