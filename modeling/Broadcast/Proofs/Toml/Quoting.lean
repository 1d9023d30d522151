import Broadcast.Toml.Quoted

/-!
# Written strings

Whatever form is chosen for a string, reading it gives the string back. An
escape is read behind its backslash in one way, on a single line and on several;
what the forms differ in is where a quote closes them.
-/

namespace Broadcast.Toml

/-! ## Escapes -/

/-- The text behind a backslash, read from what is announced to the character it stands for. -/
inductive Spells : Pending → List Char → Char → Prop
  | last {p : Pending} {x c : Char} : p.move x = .emit c .none → Spells p [x] c
  | more {p q : Pending} {x c : Char} {cs : List Char} : p.move x = .hold q → Spells q cs c → Spells p (x :: cs) c

theorem spells_of_escapeOf? {x c : Char} (h : escapeOf? x = some c) : Spells .escape [x] c := by
  refine .last ?_
  simp only [Pending.move, h]

theorem charOf?_toNat (c : Char) : charOf? c.toNat = some c := by
  have h : c.toNat.isValidChar := c.valid
  unfold charOf?
  rw [dif_pos h]
  rfl

theorem hexDigit?_digit : ∀ d, d < 16 →
    hexDigit? (if d < 10 then Char.ofNat (d + '0'.toNat) else Char.ofNat (d - 10 + 'A'.toNat)) = some d := by
  decide

theorem hexDigits_eq (n : Nat) : ∃ a b c d, hexDigits n = [a, b, c, d] ∧ hexDigit? a = some (n / 4096 % 16) ∧
    hexDigit? b = some (n / 256 % 16) ∧ hexDigit? c = some (n / 16 % 16) ∧ hexDigit? d = some (n % 16) :=
  ⟨_, _, _, _, rfl, hexDigit?_digit _ (Nat.mod_lt _ (by decide)), hexDigit?_digit _ (Nat.mod_lt _ (by decide)),
    hexDigit?_digit _ (Nat.mod_lt _ (by decide)), hexDigit?_digit _ (Nat.mod_lt _ (by decide))⟩

theorem move_code {left value : Nat} {x : Char} {d : Nat} (h : hexDigit? x = some d) (hl : left ≠ 1) :
    (Pending.code left value).move x = .hold (.code (left - 1) (16 * value + d)) := by
  simp only [Pending.move, h, hl, ite_false]

theorem move_lastCode {value : Nat} {x c : Char} {d : Nat} (h : hexDigit? x = some d)
    (hc : charOf? (16 * value + d) = some c) : (Pending.code 1 value).move x = .emit c .none := by
  simp only [Pending.move, h, ite_true, hc]

theorem spells_hexDigits {c : Char} (h : c.toNat < 65536) : Spells .escape ('u' :: hexDigits c.toNat) c := by
  obtain ⟨x₁, x₂, x₃, x₄, he, h₁, h₂, h₃, h₄⟩ := hexDigits_eq c.toNat
  rw [he]
  have hv : 16 * (16 * (16 * (16 * 0 + c.toNat / 4096 % 16) + c.toNat / 256 % 16) + c.toNat / 16 % 16) + c.toNat % 16 =
      c.toNat := by omega
  refine .more (q := .code 4 0) rfl (.more (move_code h₁ (by decide)) (.more (move_code h₂ (by decide))
    (.more (move_code h₃ (by decide)) (.last (move_lastCode h₄ ?_)))))
  rw [hv]
  exact charOf?_toNat c

theorem toNat_of_isControl {c : Char} (h : isControl c = true) : c.toNat < 65536 := by
  unfold isControl at h
  simp only [Bool.or_eq_true, Bool.and_eq_true, decide_eq_true_eq] at h
  omega

theorem isPlain_of_not_isControl {c : Char} (h : isControl c = false) (hn : c ≠ '\n') : isPlain c = true := by
  unfold isControl at h
  unfold isPlain
  simp at h ⊢
  by_cases ht : c = '\t'
  · exact .inl ht
  · refine .inr ⟨?_, h.2⟩
    exact Nat.le_of_not_lt fun hlt => hn (h.1 hlt ht)

theorem escapedChar_cases (several : Bool) (c : Char) :
    (∃ s, escapedChar several c = '\\' :: s ∧ Spells .escape s c) ∨
      (escapedChar several c = [c] ∧ c ≠ '\\' ∧ c ≠ '\r' ∧ (isPlain c = true ∨ several = true ∧ c = '\n')) := by
  unfold escapedChar
  split
  · exact .inl ⟨_, rfl, spells_of_escapeOf? rfl⟩
  · exact .inl ⟨_, rfl, spells_of_escapeOf? rfl⟩
  · exact .inl ⟨_, rfl, spells_of_escapeOf? rfl⟩
  · exact .inl ⟨_, rfl, spells_of_escapeOf? rfl⟩
  · exact .inl ⟨_, rfl, spells_of_escapeOf? rfl⟩
  · cases several with
    | true => exact .inr ⟨rfl, by decide, by decide, .inr ⟨rfl, rfl⟩⟩
    | false => exact .inl ⟨_, rfl, spells_of_escapeOf? rfl⟩
  · rename_i hr hb hn
    cases hc : isControl c with
    | true => exact .inl ⟨_, rfl, spells_hexDigits (toNat_of_isControl hc)⟩
    | false => exact .inr ⟨rfl, hb, hr, .inl (isPlain_of_not_isControl hc hn)⟩

/-! ## Strings of one line -/

theorem lineMove_of_move {p : Pending} {x : Char} (h : p.move x ≠ .fail) : lineMove p x = p.move x := by
  cases p with
  | none => exact absurd rfl h
  | escape => rfl
  | code left value => rfl
  | fold owed => rfl

theorem lineBody_spells {p : Pending} {s : List Char} {c : Char} (h : Spells p s c) (rest : List Char) :
    lineBody p (s ++ rest) = (lineBody .none rest).map (keep c) := by
  induction h with
  | last hm =>
    have hl := lineMove_of_move (by rw [hm]; simp)
    rw [hm] at hl
    simp only [List.singleton_append, lineBody, hl]
  | more hm _ ih =>
    have hl := lineMove_of_move (by rw [hm]; simp)
    rw [hm] at hl
    rw [List.cons_append]
    simp only [lineBody, hl]
    exact ih

theorem lineBody_plain {c : Char} (hq : c ≠ '"') (hb : c ≠ '\\') (hp : isPlain c = true) (rest : List Char) :
    lineBody .none (c :: rest) = (lineBody .none rest).map (keep c) := by
  simp only [lineBody, lineMove, hq, hb, hp, ite_false, ite_true]

theorem lineBody_escapedChar {c : Char} (hq : c ≠ '"') (rest : List Char) :
    lineBody .none (escapedChar false c ++ rest) = (lineBody .none rest).map (keep c) := by
  rcases escapedChar_cases false c with ⟨s, he, hs⟩ | ⟨he, hb, -, hp | ⟨hf, -⟩⟩
  · rw [he]; exact lineBody_spells hs rest
  · rw [he]; exact lineBody_plain hq hb hp rest
  · cases hf

theorem lineBody_escaped (cs rest : List Char) :
    lineBody .none (escaped false 0 cs ++ '"' :: rest) = some (cs, rest) := by
  induction cs with
  | nil => rfl
  | cons c cs ih =>
    by_cases hq : c = '"'
    · subst hq
      have hs : Spells .escape ['"'] '"' := spells_of_escapeOf? rfl
      have := lineBody_spells hs (escaped false 0 cs ++ '"' :: rest)
      rw [ih] at this
      exact this
    · have he : escaped false 0 (c :: cs) = escapedChar false c ++ escaped false 0 cs := by
        rw [escaped, if_neg hq]
      rw [he, List.append_assoc, lineBody_escapedChar hq, ih]
      rfl

/-! ## Strings of several lines -/

theorem pairAhead_of_head {q : Char} {cs : List Char} (h : cs.head? ≠ some q) : pairAhead q cs = false := by
  rcases cs with _ | ⟨a, _ | ⟨b, r⟩⟩
  · rfl
  · rfl
  · have ha : a ≠ q := fun he => h (congrArg some he)
    simp [pairAhead, ha]

theorem pairAhead_cons_of_head {q a : Char} {cs : List Char} (h : cs.head? ≠ some q) :
    pairAhead q (a :: cs) = false := by
  rcases cs with _ | ⟨b, r⟩
  · rfl
  · have hb : b ≠ q := fun he => h (congrArg some he)
    simp [pairAhead, hb]

theorem pairAhead_cons_cons (q : Char) (cs : List Char) : pairAhead q (q :: q :: cs) = true := by
  simp [pairAhead]

theorem closing_zero {q : Char} {rest : List Char} (h : rest.head? ≠ some q) :
    closing q (q :: q :: rest) = ([], rest) := by
  rcases rest with _ | ⟨a, _ | ⟨b, r⟩⟩
  · rfl
  · have ha : a ≠ q := fun he => h (congrArg some he)
    simp [closing, ha]
  · have ha : a ≠ q := fun he => h (congrArg some he)
    simp [closing, ha]

theorem closing_one {q : Char} {rest : List Char} (h : rest.head? ≠ some q) :
    closing q (q :: q :: q :: rest) = ([q], rest) := by
  rcases rest with _ | ⟨a, r⟩
  · simp [closing]
  · have ha : a ≠ q := fun he => h (congrArg some he)
    simp [closing, ha]

theorem closing_two (q : Char) (rest : List Char) : closing q (q :: q :: q :: q :: rest) = ([q, q], rest) := by
  simp [closing]

theorem blockMove_of_move {p : Pending} {x : Char} (h : p.move x ≠ .fail) (rest : List Char) :
    blockMove p x rest = p.move x := by
  cases p with
  | none => exact absurd rfl h
  | fold owed => exact absurd rfl h
  | code left value => rfl
  | escape =>
    -- a character that would continue the line announces nothing
    have h₁ : x ≠ '\n' := by rintro rfl; exact h rfl
    have h₂ : x ≠ '\r' := by rintro rfl; exact h rfl
    have h₃ : isBlank x = false := by
      cases hb : isBlank x with
      | false => rfl
      | true =>
        unfold isBlank at hb
        simp only [Bool.or_eq_true, decide_eq_true_eq] at hb
        rcases hb with rfl | rfl <;> exact absurd rfl h
    simp [blockMove, h₁, h₂, h₃]

theorem blockBody_spells {p : Pending} {s : List Char} {c : Char} (h : Spells p s c) (rest : List Char) :
    blockBody p (s ++ rest) = (blockBody .none rest).map (keep c) := by
  induction h with
  | last hm =>
    have hl := blockMove_of_move (by rw [hm]; simp) rest
    rw [hm] at hl
    simp only [List.singleton_append, blockBody, hl]
  | @more _ _ _ _ cs hm _ ih =>
    have hl := blockMove_of_move (by rw [hm]; simp) (cs ++ rest)
    rw [hm] at hl
    rw [List.cons_append]
    simp only [blockBody, hl]
    exact ih

theorem blockBody_plain {c : Char} (hq : c ≠ '"') (hb : c ≠ '\\') (hp : isPlain c = true ∨ c = '\n')
    (rest : List Char) : blockBody .none (c :: rest) = (blockBody .none rest).map (keep c) := by
  have hm : blockMove .none c rest = .emit c .none := by
    rcases hp with hp | rfl
    · simp [blockMove, hq, hb, hp]
    · rfl
  simp only [blockBody, hm]

theorem blockBody_escapedChar {c : Char} (hq : c ≠ '"') (rest : List Char) :
    blockBody .none (escapedChar true c ++ rest) = (blockBody .none rest).map (keep c) := by
  rcases escapedChar_cases true c with ⟨s, he, hs⟩ | ⟨he, hb, -, hp⟩
  · rw [he]; exact blockBody_spells hs rest
  · rw [he]; exact blockBody_plain hq hb (hp.imp_right And.right) rest

theorem blockBody_quote {rest : List Char} (h : pairAhead '"' rest = false) :
    blockBody .none ('"' :: rest) = (blockBody .none rest).map (keep '"') := by
  have hm : blockMove .none '"' rest = .emit '"' .none := by simp [blockMove, h]
  simp only [blockBody, hm]

theorem blockBody_close {rest : List Char} (h : pairAhead '"' rest = true) :
    blockBody .none ('"' :: rest) = some (closing '"' rest) := by
  have hm : blockMove .none '"' rest = .close := by simp [blockMove, h]
  simp only [blockBody, hm]

theorem escaped_quote {several : Bool} {run : Nat} (h : several = true ∧ run < 2) (cs : List Char) :
    escaped several run ('"' :: cs) = '"' :: escaped several (run + 1) cs := by
  simp [escaped, h.1, h.2]

theorem escaped_lastQuote {several : Bool} {run : Nat} (h : ¬ (several = true ∧ run < 2)) (cs : List Char) :
    escaped several run ('"' :: cs) = '\\' :: '"' :: escaped several 0 cs := by
  simp only [escaped, ite_true, Bool.and_eq_true, decide_eq_true_eq, if_neg h]

theorem escaped_char {c : Char} (h : c ≠ '"') (several : Bool) (run : Nat) (cs : List Char) :
    escaped several run (c :: cs) = escapedChar several c ++ escaped several 0 cs := by
  rw [escaped, if_neg h]

theorem head?_escapedChar (several : Bool) (c : Char) (cs : List Char) :
    (escapedChar several c ++ cs).head? = some '\\' ∨ c ≠ '\r' ∧ (escapedChar several c ++ cs).head? = some c := by
  rcases escapedChar_cases several c with ⟨s, he, -⟩ | ⟨he, -, hr, -⟩
  · rw [he]; exact .inl rfl
  · rw [he]; exact .inr ⟨hr, rfl⟩

theorem head?_escaped {several : Bool} {run : Nat} {c : Char} (h : c = '"' → ¬ (several = true ∧ run < 2))
    (cs rest : List Char) : (escaped several run (c :: cs) ++ rest).head? ≠ some '"' := by
  by_cases hq : c = '"'
  · subst hq
    rw [escaped_lastQuote (h rfl)]
    simp
  · rw [escaped_char hq, List.append_assoc]
    rcases head?_escapedChar several c (escaped several 0 cs ++ rest) with hh | ⟨-, hh⟩
    · rw [hh]; decide
    · rw [hh]; exact fun he => hq (Option.some.inj he)

theorem blockBody_escaped {rest : List Char} (hr : rest.head? ≠ some '"') (cs : List Char) : ∀ run, run ≤ 2 →
    blockBody .none (escaped true run cs ++ '"' :: '"' :: '"' :: rest) = some (cs, rest) := by
  induction cs with
  | nil =>
    intro run _
    have := blockBody_close (pairAhead_cons_cons '"' rest)
    rw [closing_zero hr] at this
    exact this
  | cons c cs ih =>
    intro run hrun
    by_cases hq : c = '"'
    · subst hq
      by_cases h2 : run < 2
      · rw [escaped_quote ⟨rfl, h2⟩, List.cons_append]
        -- the quote closes the block exactly if only quotes are left
        have emitted (hp : pairAhead '"' (escaped true (run + 1) cs ++ '"' :: '"' :: '"' :: rest) = false) :
            blockBody .none ('"' :: (escaped true (run + 1) cs ++ '"' :: '"' :: '"' :: rest)) =
              some ('"' :: cs, rest) := by
          rw [blockBody_quote hp, ih (run + 1) (by omega)]
          rfl
        rcases cs with _ | ⟨d, ds⟩
        · have := blockBody_close (pairAhead_cons_cons '"' ('"' :: rest))
          rw [closing_one hr] at this
          exact this
        · by_cases hd : d = '"' ∧ run + 1 < 2
          · obtain ⟨rfl, h1⟩ := hd
            rcases ds with _ | ⟨e, es⟩
            · rw [escaped_quote ⟨rfl, h1⟩]
              have := blockBody_close (pairAhead_cons_cons '"' ('"' :: '"' :: rest))
              rw [closing_two] at this
              exact this
            · refine emitted ?_
              rw [escaped_quote ⟨rfl, h1⟩, List.cons_append]
              exact pairAhead_cons_of_head (head?_escaped (fun _ hn => absurd hn.2 (by omega)) es _)
          · exact emitted (pairAhead_of_head (head?_escaped (fun he hn => hd ⟨he, hn.2⟩) ds _))
      · rw [escaped_lastQuote (fun h => h2 h.2)]
        have hs : Spells .escape ['"'] '"' := spells_of_escapeOf? rfl
        have := blockBody_spells hs (escaped true 0 cs ++ '"' :: '"' :: '"' :: rest)
        rw [ih 0 (Nat.zero_le 2)] at this
        exact this
    · rw [escaped_char hq, List.append_assoc, blockBody_escapedChar hq, ih 0 (Nat.zero_le 2)]
      rfl

/-! ## Literal strings -/

theorem literalLine_append {cs : List Char} (h : ∀ c ∈ cs, isControl c = false ∧ c ≠ '\'' ∧ c ≠ '\n')
    (rest : List Char) :
    literalLine (cs ++ '\'' :: rest) = some (cs, rest) := by
  induction cs with
  | nil => rfl
  | cons c cs ih =>
    obtain ⟨hc, hq, hn⟩ := h c List.mem_cons_self
    have ih := ih (fun d hd => h d (List.mem_cons_of_mem c hd))
    rw [List.cons_append]
    simp only [literalLine, hq, isPlain_of_not_isControl hc hn, ite_false, ite_true, ih, Option.map_some, keep]

theorem literalBlock_char {c : Char} (hc : isControl c = false) {rest : List Char}
    (hq : c = '\'' → pairAhead '\'' rest = false) : literalBlock (c :: rest) = (literalBlock rest).map (keep c) := by
  have hp : (c = '\n' || (c = '\r' && startsLine rest) || isPlain c) = true := by
    by_cases hn : c = '\n'
    · simp [hn]
    · simp [isPlain_of_not_isControl hc hn]
  have hcl : (decide (c = '\'') && pairAhead '\'' rest) = false := by
    by_cases he : c = '\''
    · simp [he, hq he]
    · simp [he]
  rw [literalBlock, hcl, hp]
  rfl

theorem literalBlock_close {rest : List Char} (h : pairAhead '\'' rest = true) :
    literalBlock ('\'' :: rest) = some (closing '\'' rest) := by
  rw [literalBlock, h]
  rfl

theorem crowded_quote {q : Char} {run : Nat} {cs : List Char} (h : crowded q run (q :: cs) = false) :
    run ≠ 2 ∧ crowded q (run + 1) cs = false := by
  simpa [crowded] using h

theorem crowded_char {q c : Char} (hc : c ≠ q) (run : Nat) (cs : List Char) :
    crowded q run (c :: cs) = crowded q 0 cs := by
  rw [crowded, if_neg hc]

theorem literalBlock_append {rest : List Char} (hr : rest.head? ≠ some '\'') (cs : List Char)
    (hc : ∀ c ∈ cs, isControl c = false) : ∀ run, run ≤ 2 → crowded '\'' run cs = false →
    literalBlock (cs ++ '\'' :: '\'' :: '\'' :: rest) = some (cs, rest) := by
  induction cs with
  | nil =>
    intro run _ _
    have := literalBlock_close (pairAhead_cons_cons '\'' rest)
    rw [closing_zero hr] at this
    exact this
  | cons c cs ih =>
    intro run hrun hcr
    have ih := ih (fun d hd => hc d (List.mem_cons_of_mem c hd))
    have hcc := hc c List.mem_cons_self
    by_cases hq : c = '\''
    · subst hq
      obtain ⟨h2, hcr⟩ := crowded_quote hcr
      have emitted (hp : pairAhead '\'' (cs ++ '\'' :: '\'' :: '\'' :: rest) = false) :
          literalBlock ('\'' :: (cs ++ '\'' :: '\'' :: '\'' :: rest)) = some ('\'' :: cs, rest) := by
        rw [literalBlock_char hcc (fun _ => hp), ih (run + 1) (by omega) hcr]
        rfl
      rcases cs with _ | ⟨d, ds⟩
      · have := literalBlock_close (pairAhead_cons_cons '\'' ('\'' :: rest))
        rw [closing_one hr] at this
        exact this
      · by_cases hd : d = '\''
        · subst hd
          obtain ⟨h1, hcr'⟩ := crowded_quote hcr
          rcases ds with _ | ⟨e, es⟩
          · have := literalBlock_close (pairAhead_cons_cons '\'' ('\'' :: '\'' :: rest))
            rw [closing_two] at this
            exact this
          · -- three quotes in a row would be too many
            have he : e ≠ '\'' := by
              rintro rfl
              have := (crowded_quote hcr').1
              omega
            exact emitted (pairAhead_cons_of_head (fun hh => he (Option.some.inj hh)))
        · exact emitted (pairAhead_of_head (fun hh => hd (Option.some.inj hh)))
    · rw [crowded_char hq] at hcr
      rw [List.cons_append, literalBlock_char hcc (fun he => absurd he hq), ih 0 (Nat.zero_le 2) hcr]
      rfl

/-! ## All forms -/

theorem skipLineEnd_of_head {cs : List Char} (h₁ : cs.head? ≠ some '\n') (h₂ : cs.head? ≠ some '\r') :
    skipLineEnd cs = cs := by
  unfold skipLineEnd
  split
  · exact absurd rfl h₁
  · exact absurd rfl h₂
  · rfl

theorem skipLineEnd_opening {cs body : List Char}
    (h : '\n' ∉ cs → body.head? ≠ some '\n' ∧ body.head? ≠ some '\r') :
    skipLineEnd (Style.written.opening cs ++ body) = body := by
  unfold Style.written.opening
  by_cases hn : '\n' ∈ cs
  · rw [if_pos (List.contains_iff_mem.mpr hn)]
    rfl
  · rw [if_neg (fun hc => hn (List.contains_iff_mem.mp hc))]
    exact skipLineEnd_of_head (h hn).1 (h hn).2

variable {rest : List Char} (h₁ : rest.head? ≠ some '"') (h₂ : rest.head? ≠ some '\'')

include h₁ in
theorem string?_line (cs : List Char) : string? (Style.line.written cs ++ rest) = some (cs, rest) := by
  have hp : pairAhead '"' (escaped false 0 cs ++ '"' :: rest) = false := by
    rcases cs with _ | ⟨c, cs⟩
    · exact pairAhead_cons_of_head h₁
    · exact pairAhead_of_head (head?_escaped (fun _ hn => by cases hn.1) cs _)
  have he : Style.line.written cs ++ rest = '"' :: (escaped false 0 cs ++ '"' :: rest) := by simp [Style.written]
  rw [he]
  simp only [string?, hp, Bool.false_eq_true, ite_false]
  exact lineBody_escaped cs rest

include h₂ in
theorem string?_literalLine {cs : List Char} (h : ∀ c ∈ cs, isControl c = false ∧ c ≠ '\'' ∧ c ≠ '\n') :
    string? (Style.literalLine.written cs ++ rest) = some (cs, rest) := by
  have hp : pairAhead '\'' (cs ++ '\'' :: rest) = false := by
    rcases cs with _ | ⟨c, cs⟩
    · exact pairAhead_cons_of_head h₂
    · exact pairAhead_of_head (fun hh => (h c List.mem_cons_self).2.1 (Option.some.inj hh))
  have he : Style.literalLine.written cs ++ rest = '\'' :: (cs ++ '\'' :: rest) := by simp [Style.written]
  rw [he]
  simp only [string?, hp, Bool.false_eq_true, ite_false]
  exact literalLine_append h rest

include h₁ in
theorem string?_block (cs : List Char) : string? (Style.block.written cs ++ rest) = some (cs, rest) := by
  have he : Style.block.written cs ++ rest =
      '"' :: '"' :: '"' :: (Style.written.opening cs ++ (escaped true 0 cs ++ '"' :: '"' :: '"' :: rest)) := by
    simp [Style.written]
  rw [he]
  simp only [string?, pairAhead_cons_cons, ite_true, List.drop_succ_cons, List.drop_zero]
  rw [skipLineEnd_opening, blockBody_escaped h₁ cs 0 (Nat.zero_le 2)]
  intro hn
  rcases cs with _ | ⟨c, cs⟩
  · exact ⟨by simp [escaped], by simp [escaped]⟩
  · have hc : c ≠ '\n' := fun hc => hn (hc ▸ List.mem_cons_self)
    by_cases hq : c = '"'
    · subst hq
      rw [escaped_quote ⟨rfl, Nat.zero_lt_two⟩]
      exact ⟨by simp, by simp⟩
    · rw [escaped_char hq, List.append_assoc]
      rcases head?_escapedChar true c (escaped true 0 cs ++ '"' :: '"' :: '"' :: rest) with hh | ⟨hr, hh⟩ <;> rw [hh]
      · exact ⟨by decide, by decide⟩
      · exact ⟨fun hs => hc (Option.some.inj hs), fun hs => hr (Option.some.inj hs)⟩

include h₂ in
theorem string?_literalBlock {cs : List Char} (hc : ∀ c ∈ cs, isControl c = false) (hcr : crowded '\'' 0 cs = false) :
    string? (Style.literalBlock.written cs ++ rest) = some (cs, rest) := by
  have he : Style.literalBlock.written cs ++ rest =
      '\'' :: '\'' :: '\'' :: (Style.written.opening cs ++ (cs ++ '\'' :: '\'' :: '\'' :: rest)) := by
    simp [Style.written]
  rw [he]
  simp only [string?, pairAhead_cons_cons, ite_true, List.drop_succ_cons, List.drop_zero]
  rw [skipLineEnd_opening, literalBlock_append h₂ cs hc 0 (Nat.zero_le 2) hcr]
  intro hn
  rcases cs with _ | ⟨c, cs⟩
  · exact ⟨by simp, by simp⟩
  · have hne : c ≠ '\n' := fun hc => hn (hc ▸ List.mem_cons_self)
    have hr : c ≠ '\r' := by
      rintro rfl
      exact absurd (hc '\r' List.mem_cons_self) (by decide)
    exact ⟨fun hs => hne (Option.some.inj hs), fun hs => hr (Option.some.inj hs)⟩

/-- When each form is chosen, as far as it matters for reading it. -/
theorem style_cases (cs : List Char) :
    Style.of cs = .line ∨ Style.of cs = .block ∨
      (Style.of cs = .literalLine ∧ ∀ c ∈ cs, isControl c = false ∧ c ≠ '\'' ∧ c ≠ '\n') ∨
      (Style.of cs = .literalBlock ∧ (∀ c ∈ cs, isControl c = false) ∧ crowded '\'' 0 cs = false) := by
  have calm : (!cs.any isControl) = true → ∀ c ∈ cs, isControl c = false := by
    intro h c hc
    simp only [Bool.not_eq_true', List.any_eq_false] at h
    exact Bool.eq_false_iff.mpr (h c hc)
  unfold Style.of
  simp only
  split
  · exact .inl rfl
  · split
    · rename_i h
      simp only [Bool.and_eq_true] at h
      refine .inr (.inr (.inl ⟨rfl, fun c hc => ⟨calm h.1.1 c hc, ?_, ?_⟩⟩))
      · rintro rfl; simp [hc] at h
      · rintro rfl; simp [hc] at h
    · split
      · exact .inr (.inl rfl)
      · split
        · rename_i h
          simp only [Bool.and_eq_true] at h
          exact .inr (.inr (.inr ⟨rfl, calm h.1, by simpa using h.2⟩))
        · split
          · exact .inr (.inl rfl)
          · exact .inl rfl

include h₁ h₂ in
/-- **A written string is read back**, whatever characters it has and whatever form was chosen. -/
theorem string?_written (cs : List Char) : string? ((Style.of cs).written cs ++ rest) = some (cs, rest) := by
  rcases style_cases cs with h | h | ⟨h, hc⟩ | ⟨h, hc, hcr⟩ <;> rw [h]
  · exact string?_line h₁ cs
  · exact string?_block h₁ cs
  · exact string?_literalLine h₂ hc
  · exact string?_literalBlock h₂ hc hcr

omit h₁ h₂

/-! ## No carriage return is written -/

theorem return_notMem_spelled {p : Pending} {s : List Char} {c : Char} (h : Spells p s c) : '\r' ∉ s := by
  have hr : ∀ p : Pending, p.move '\r' = .fail := by
    intro p
    cases p <;> rfl
  induction h with
  | @last p x c hm =>
    intro hx
    rw [← List.mem_singleton.mp hx, hr] at hm
    cases hm
  | @more p q x c s hm _ ih =>
    intro hx
    rcases List.mem_cons.mp hx with rfl | hx
    · rw [hr] at hm; cases hm
    · exact ih hx

theorem return_notMem_escapedChar (several : Bool) (c : Char) : '\r' ∉ escapedChar several c := by
  rcases escapedChar_cases several c with ⟨s, he, hs⟩ | ⟨he, -, hr, -⟩ <;> rw [he]
  · intro hm
    rcases List.mem_cons.mp hm with hm | hm
    · cases hm
    · exact return_notMem_spelled hs hm
  · exact fun hm => hr (List.mem_singleton.mp hm).symm

theorem return_notMem_escaped (several : Bool) (cs : List Char) : ∀ run, '\r' ∉ escaped several run cs := by
  induction cs with
  | nil => intro run; exact List.not_mem_nil
  | cons c cs ih =>
    intro run hm
    by_cases hq : c = '"'
    · subst hq
      by_cases h : several = true ∧ run < 2
      · rw [escaped_quote h] at hm
        rcases List.mem_cons.mp hm with hm | hm
        · cases hm
        · exact ih _ hm
      · rw [escaped_lastQuote h] at hm
        rcases List.mem_cons.mp hm with hm | hm
        · cases hm
        · rcases List.mem_cons.mp hm with hm | hm
          · cases hm
          · exact ih _ hm
    · rw [escaped_char hq] at hm
      rcases List.mem_append.mp hm with hm | hm
      · exact return_notMem_escapedChar several c hm
      · exact ih _ hm

theorem return_notMem_written (cs : List Char) : '\r' ∉ (Style.of cs).written cs := by
  have hcalm : (∀ c ∈ cs, isControl c = false) → '\r' ∉ cs := fun h hm => absurd (h _ hm) (by decide)
  have hopen : '\r' ∉ Style.written.opening cs := by
    unfold Style.written.opening
    split <;> simp
  rcases style_cases cs with h | h | ⟨h, hc⟩ | ⟨h, hc, -⟩ <;> rw [h]
  · simp [Style.written, return_notMem_escaped]
  · simp [Style.written, return_notMem_escaped, hopen]
  · simp [Style.written, hcalm (fun c hm => (hc c hm).1)]
  · simp [Style.written, hopen, hcalm hc]

end Broadcast.Toml
