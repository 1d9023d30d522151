import Broadcast.Proofs.Toml.Gaps

/-!
# Strings, again

A string that was read is read again from its own characters, whatever stands
behind them, but for a quote. So it is without the carriage returns in front of
the line feeds, unless one of them is in the string.
-/

namespace Broadcast.Toml

/-! ## Strings of one line -/

theorem lineMove_return (p : Pending) : lineMove p '\r' = .fail := by
  cases p <;> rfl

theorem lineBody_local {p : Pending} {cs s rest : List Char} (h : lineBody p cs = some (s, rest)) :
    ∃ used, cs = used ++ rest ∧ used ≠ [] ∧ '\r' ∉ used ∧ ∀ rest', lineBody p (used ++ rest') = some (s, rest') := by
  induction cs generalizing p s with
  | nil => cases h
  | cons c cs ih =>
    have hc : lineMove p c ≠ .fail → '\r' ≠ c := by
      rintro hm rfl
      exact hm (lineMove_return p)
    rw [lineBody] at h
    cases hm : lineMove p c with
    | emit d next =>
      rw [hm] at h hc
      obtain ⟨⟨s', r⟩, hs, he⟩ := Option.map_eq_some_iff.mp h
      cases he
      obtain ⟨used, rfl, -, hr, hu⟩ := ih hs
      refine ⟨c :: used, rfl, List.cons_ne_nil _ _, List.not_mem_cons_of_ne_of_not_mem (hc (by simp)) hr,
        fun rest' => ?_⟩
      rw [List.cons_append, lineBody, hm]
      simp only [hu rest', Option.map_some]
      rfl
    | hold next =>
      rw [hm] at h hc
      obtain ⟨used, rfl, -, hr, hu⟩ := ih h
      refine ⟨c :: used, rfl, List.cons_ne_nil _ _, List.not_mem_cons_of_ne_of_not_mem (hc (by simp)) hr,
        fun rest' => ?_⟩
      rw [List.cons_append, lineBody, hm]
      exact hu rest'
    | close =>
      rw [hm] at h hc
      cases h
      refine ⟨[c], rfl, List.cons_ne_nil _ _, List.not_mem_cons_of_ne_of_not_mem (hc (by simp)) List.not_mem_nil,
        fun rest' => ?_⟩
      rw [List.cons_append, lineBody, hm]
      rfl
    | fail => rw [hm] at h; cases h

theorem literalLine_local {cs s rest : List Char} (h : literalLine cs = some (s, rest)) :
    ∃ used, cs = used ++ rest ∧ used ≠ [] ∧ '\r' ∉ used ∧ ∀ rest', literalLine (used ++ rest') = some (s, rest') := by
  induction cs generalizing s with
  | nil => cases h
  | cons c cs ih =>
    rw [literalLine] at h
    split at h
    · rename_i hc
      cases h
      subst hc
      exact ⟨['\''], rfl, List.cons_ne_nil _ _, by simp, fun rest' => rfl⟩
    · rename_i hc
      split at h
      · rename_i hp
        obtain ⟨⟨s', r⟩, hs, he⟩ := Option.map_eq_some_iff.mp h
        cases he
        obtain ⟨used, rfl, -, hr, hu⟩ := ih hs
        have hne : '\r' ≠ c := by rintro rfl; cases hp
        refine ⟨c :: used, rfl, List.cons_ne_nil _ _, List.not_mem_cons_of_ne_of_not_mem hne hr, fun rest' => ?_⟩
        rw [List.cons_append, literalLine, if_neg hc, if_pos hp, hu rest']
        rfl
      · cases h

/-! ## Strings of several lines -/

theorem pairAhead_eq_true {q : Char} {cs : List Char} (h : pairAhead q cs = true) : ∃ r, cs = q :: q :: r := by
  rcases cs with _ | ⟨a, _ | ⟨b, r⟩⟩
  · cases h
  · cases h
  · rw [pairAhead, Bool.and_eq_true, decide_eq_true_eq, decide_eq_true_eq] at h
    obtain ⟨rfl, rfl⟩ := h
    exact ⟨r, rfl⟩

theorem closing_local {q : Char} {cs : List Char} (h : pairAhead q cs = true) :
    ∃ used, cs = used ++ (closing q cs).2 ∧ 2 ≤ used.length ∧ (∀ c ∈ used, c = q) ∧
      ∀ rest', rest'.head? ≠ some q → closing q (used ++ rest') = ((closing q cs).1, rest') := by
  obtain ⟨r, rfl⟩ := pairAhead_eq_true h
  by_cases h₀ : r.head? = some q
  · obtain ⟨r, rfl⟩ := List.head?_eq_some_iff.mp h₀
    by_cases h₁ : r.head? = some q
    · obtain ⟨r, rfl⟩ := List.head?_eq_some_iff.mp h₁
      rw [closing_two]
      exact ⟨[q, q, q, q], rfl, by simp, by simp, fun rest' _ => closing_two q rest'⟩
    · rw [closing_one h₁]
      exact ⟨[q, q, q], rfl, by simp, by simp, fun rest' h' => closing_one h'⟩
  · rw [closing_zero h₀]
    exact ⟨[q, q], rfl, by simp, by simp, fun rest' h' => closing_zero h'⟩

theorem pairAhead_append {q : Char} {used : List Char} (h : 2 ≤ used.length) (rest rest' : List Char) :
    pairAhead q (used ++ rest) = pairAhead q (used ++ rest') := by
  rcases used with _ | ⟨a, _ | ⟨b, used⟩⟩
  · cases h
  · simp at h
  · rfl

theorem startsLine_cons (c : Char) (cs : List Char) : startsLine (c :: cs) = decide (c = '\n') := by
  unfold startsLine
  split
  · rename_i he
    rw [(List.cons.inj he).1]
    rfl
  · rename_i hne
    exact (decide_eq_false fun hc => hne cs (by rw [hc])).symm

theorem startsLine_eq_true {cs : List Char} (h : startsLine cs = true) : ∃ r, cs = '\n' :: r := by
  rcases cs with _ | ⟨c, r⟩
  · cases h
  · rw [startsLine_cons, decide_eq_true_eq] at h
    exact ⟨r, by rw [h]⟩

theorem startsLine_append {used : List Char} (h : 2 ≤ used.length) (rest rest' : List Char) :
    startsLine (used ++ rest) = startsLine (used ++ rest') := by
  rcases used with _ | ⟨a, used⟩
  · cases h
  · rw [List.cons_append, List.cons_append, startsLine_cons, startsLine_cons]

theorem blockMove_congr {cs cs' : List Char} (h₁ : pairAhead '"' cs = pairAhead '"' cs')
    (h₂ : startsLine cs = startsLine cs') (p : Pending) (c : Char) : blockMove p c cs = blockMove p c cs' := by
  unfold blockMove
  rw [h₁, h₂]

theorem move_ne_close (p : Pending) (c : Char) : p.move c ≠ .close := by
  unfold Pending.move
  split
  · split <;> simp
  · split
    · split_ifs
      · split <;> simp
      · simp
    · simp
  · simp

theorem pairAhead_of_close {p : Pending} {c : Char} {cs : List Char} (h : blockMove p c cs = .close) :
    c = '"' ∧ pairAhead '"' cs = true := by
  cases p with
  | none =>
    simp only [blockMove] at h
    split_ifs at h with h₁ h₂
    exact ⟨h₁, h₂⟩
  | escape =>
    simp only [blockMove] at h
    split_ifs at h
    exact absurd h (move_ne_close _ _)
  | code left value => exact absurd h (move_ne_close (.code left value) c)
  | fold owed =>
    simp only [blockMove] at h
    split_ifs at h with _ _ _ h₁ h₂
    exact ⟨h₁, h₂⟩

theorem blockBody_local {p : Pending} {cs s rest : List Char} (h : blockBody p cs = some (s, rest)) :
    ∃ used, cs = used ++ rest ∧ 3 ≤ used.length ∧
      ∀ rest', rest'.head? ≠ some '"' → blockBody p (used ++ rest') = some (s, rest') := by
  induction cs generalizing p s with
  | nil => cases h
  | cons c cs ih =>
    rw [blockBody] at h
    have same {used : List Char} (hu : 3 ≤ used.length) (rest' : List Char) :
        blockMove p c (used ++ rest') = blockMove p c (used ++ rest) :=
      blockMove_congr (pairAhead_append (by omega) _ _) (startsLine_append (by omega) _ _) p c
    cases hm : blockMove p c cs with
    | emit d next =>
      rw [hm] at h
      obtain ⟨⟨s', r⟩, hs, he⟩ := Option.map_eq_some_iff.mp h
      cases he
      obtain ⟨used, rfl, hlen, hu⟩ := ih hs
      refine ⟨c :: used, rfl, by rw [List.length_cons]; omega, fun rest' hr => ?_⟩
      rw [List.cons_append, blockBody, same hlen, hm]
      simp only [hu rest' hr, Option.map_some]
      rfl
    | hold next =>
      rw [hm] at h
      obtain ⟨used, rfl, hlen, hu⟩ := ih h
      refine ⟨c :: used, rfl, by rw [List.length_cons]; omega, fun rest' hr => ?_⟩
      rw [List.cons_append, blockBody, same hlen, hm]
      exact hu rest' hr
    | close =>
      rw [hm] at h
      obtain ⟨rfl, hp⟩ := pairAhead_of_close hm
      obtain ⟨used, hcs, hlen, -, hu⟩ := closing_local hp
      rw [Option.some.inj h] at hcs hu
      refine ⟨'"' :: used, by rw [hcs]; rfl, by rw [List.length_cons]; omega, fun rest' hr => ?_⟩
      have hm' : blockMove p '"' (used ++ rest') = .close := by
        rw [← hm, hcs]
        exact blockMove_congr (pairAhead_append hlen _ _) (startsLine_append hlen _ _) p '"'
      rw [List.cons_append, blockBody, hm']
      simp only [hu rest' hr]
    | fail => rw [hm] at h; cases h

theorem literalBlock_local {cs s rest : List Char} (h : literalBlock cs = some (s, rest)) :
    ∃ used, cs = used ++ rest ∧ 3 ≤ used.length ∧ ('\r' ∈ used → '\n' ∈ used ∧ '\r' ∈ s) ∧
      ∀ rest', rest'.head? ≠ some '\'' → literalBlock (used ++ rest') = some (s, rest') := by
  induction cs generalizing s with
  | nil => cases h
  | cons c cs ih =>
    rw [literalBlock] at h
    split at h
    · rename_i hc
      rw [Bool.and_eq_true, decide_eq_true_eq] at hc
      obtain ⟨rfl, hp⟩ := hc
      obtain ⟨used, hcs, hlen, hq, hu⟩ := closing_local hp
      rw [Option.some.inj h] at hcs hu
      have hret : '\r' ∉ '\'' :: used := by
        refine List.not_mem_cons_of_ne_of_not_mem (by decide) fun hm => ?_
        cases hq _ hm
      refine ⟨'\'' :: used, by rw [hcs]; rfl, by rw [List.length_cons]; omega, fun hm => absurd hm hret,
        fun rest' hr => ?_⟩
      rw [List.cons_append, literalBlock_close, hu rest' hr]
      rw [← hp, hcs]
      exact pairAhead_append hlen _ _
    · rename_i hc
      split at h
      · rename_i hp
        obtain ⟨⟨s', r⟩, hs, he⟩ := Option.map_eq_some_iff.mp h
        cases he
        obtain ⟨used, rfl, hlen, hret, hu⟩ := ih hs
        refine ⟨c :: used, rfl, by rw [List.length_cons]; omega, ?_, fun rest' hr => ?_⟩
        · intro hm
          rcases List.mem_cons.mp hm with rfl | hm
          · have hs : startsLine (used ++ r) = true := by simpa [isPlain] using hp
            rw [startsLine_append (by omega) _ []] at hs
            obtain ⟨r, hr⟩ := startsLine_eq_true hs
            rw [List.append_nil] at hr
            rw [hr]
            simp
          · exact ⟨List.mem_cons_of_mem c (hret hm).1, List.mem_cons_of_mem c (hret hm).2⟩
        · have hlen' : 2 ≤ used.length := by omega
          rw [pairAhead_append hlen' _ rest'] at hc
          rw [startsLine_append hlen' _ rest'] at hp
          rw [List.cons_append, literalBlock, if_neg hc, if_pos hp, hu rest' hr]
          rfl
      · cases h

/-! ## Carriage returns in strings of several lines -/

def ReturnsEnd : List Char → Prop
  | [] => True
  | c :: cs => (c = '\r' → startsLine cs = true) ∧ ReturnsEnd cs

theorem returnsEnd_of_notMem {cs : List Char} (h : '\r' ∉ cs) : ReturnsEnd cs := by
  induction cs with
  | nil => trivial
  | cons c cs ih =>
    rw [List.mem_cons, not_or] at h
    exact ⟨fun hc => absurd hc.symm h.1, ih h.2⟩

theorem newline_mem_of_return {cs : List Char} (h : ReturnsEnd cs) (hr : '\r' ∈ cs) : '\n' ∈ cs := by
  induction cs with
  | nil => cases hr
  | cons c cs ih =>
    rcases List.mem_cons.mp hr with rfl | hr
    · obtain ⟨r, rfl⟩ := startsLine_eq_true (h.1 rfl)
      simp
    · exact List.mem_cons_of_mem c (ih h.2 hr)

theorem blockMove_return {cs : List Char} (h : startsLine cs = false) (p : Pending) : blockMove p '\r' cs = .fail := by
  cases p with
  | none => simp [blockMove, h]; decide
  | escape => simp [blockMove, h]; decide
  | code left value => rfl
  | fold owed => cases owed <;> simp [blockMove, h] <;> decide

theorem returnsEnd_of_blockBody {p : Pending} {cs s : List Char} (h : blockBody p cs = some (s, [])) :
    ReturnsEnd cs := by
  induction cs generalizing p s with
  | nil => trivial
  | cons c cs ih =>
    have hc : blockMove p c cs ≠ .fail → c = '\r' → startsLine cs = true := by
      rintro hm rfl
      cases hs : startsLine cs with
      | true => rfl
      | false => exact absurd (blockMove_return hs p) hm
    rw [blockBody] at h
    cases hm : blockMove p c cs with
    | emit d next =>
      rw [hm] at h hc
      obtain ⟨⟨s', r⟩, hs, he⟩ := Option.map_eq_some_iff.mp h
      cases he
      exact ⟨hc (by simp), ih hs⟩
    | hold next => rw [hm] at h hc; exact ⟨hc (by simp), ih h⟩
    | close =>
      rw [hm] at h
      obtain ⟨rfl, hp⟩ := pairAhead_of_close hm
      obtain ⟨used, hcs, -, hq, -⟩ := closing_local hp
      rw [Option.some.inj h, List.append_nil] at hcs
      refine returnsEnd_of_notMem (List.not_mem_cons_of_ne_of_not_mem (by decide) fun hr => ?_)
      cases hq _ (hcs ▸ hr)
    | fail => rw [hm] at h; cases h

theorem head?_keptChars {cs : List Char} (h : ReturnsEnd cs) {q : Char} (hn : q ≠ '\n') (hr : q ≠ '\r') :
    (keptChars cs).head? = some q ↔ cs.head? = some q := by
  rcases cs with _ | ⟨c, cs⟩
  · exact .rfl
  · by_cases hc : c = '\r'
    · obtain ⟨r, rfl⟩ := startsLine_eq_true (h.1 hc)
      subst hc
      rw [keptChars_return, keptChars_cons (by decide)]
      simp [hn.symm, hr.symm]
    · rw [keptChars_cons hc]
      exact .rfl

theorem pairAhead_cons (q c : Char) (cs : List Char) : pairAhead q (c :: cs) = true ↔ c = q ∧ cs.head? = some q := by
  rcases cs with _ | ⟨d, r⟩
  · simp [pairAhead]
  · simp [pairAhead]

theorem pairAhead_keptChars {cs : List Char} (h : ReturnsEnd cs) {q : Char} (hn : q ≠ '\n') (hr : q ≠ '\r') :
    pairAhead q (keptChars cs) = pairAhead q cs := by
  rcases cs with _ | ⟨c, cs⟩
  · rfl
  · by_cases hc : c = '\r'
    · obtain ⟨r, rfl⟩ := startsLine_eq_true (h.1 hc)
      subst hc
      rw [keptChars_return, keptChars_cons (by decide), Bool.eq_iff_iff, pairAhead_cons, pairAhead_cons]
      simp [hn.symm, hr.symm]
    · rw [keptChars_cons hc, Bool.eq_iff_iff, pairAhead_cons, pairAhead_cons, head?_keptChars h.2 hn hr]

theorem blockMove_congr_of_ne {c : Char} (hc : c ≠ '\r') {cs cs' : List Char} (h : pairAhead '"' cs = pairAhead '"' cs')
    (p : Pending) : blockMove p c cs = blockMove p c cs' := by
  unfold blockMove
  simp only [h, hc, decide_false, Bool.false_and]

theorem blockBody_dropReturn {p : Pending} {cs s : List Char} (h : blockBody p ('\r' :: cs) = some (s, [])) :
    ∃ s', blockBody p cs = some (s', []) ∧ ('\r' ∉ s → s' = s) := by
  obtain ⟨r, rfl⟩ := startsLine_eq_true ((returnsEnd_of_blockBody h).1 rfl)
  cases p with
  | none =>
    obtain ⟨⟨s', _⟩, hs', he⟩ := Option.map_eq_some_iff.mp h
    cases he
    exact ⟨s', hs', fun hs => absurd List.mem_cons_self hs⟩
  | code left value => cases h
  | escape => exact ⟨s, h, fun _ => rfl⟩
  | fold owed => exact ⟨s, h, fun _ => rfl⟩

/-- Without carriage returns before its line ends a string of several lines is one still,
and the same one unless it has a carriage return itself. -/
theorem blockBody_keptChars {p : Pending} {cs s : List Char} (h : blockBody p cs = some (s, [])) :
    ∃ s', blockBody p (keptChars cs) = some (s', []) ∧ ('\r' ∉ s → s' = s) := by
  induction cs generalizing p s with
  | nil => cases h
  | cons c cs ih =>
    have hends := returnsEnd_of_blockBody h
    by_cases hc : c = '\r'
    · subst hc
      obtain ⟨s₁, h₁, hs₁⟩ := blockBody_dropReturn h
      obtain ⟨s₂, h₂, hs₂⟩ := ih h₁
      refine ⟨s₂, h₂, fun hs => ?_⟩
      have hsame := hs₁ hs
      rw [← hsame] at hs ⊢
      exact hs₂ hs
    · have hmove := blockMove_congr_of_ne hc (pairAhead_keptChars hends.2 (q := '"') (by decide) (by decide)) p
      rw [blockBody] at h
      rw [keptChars_cons hc, blockBody, hmove]
      cases hm : blockMove p c cs with
      | emit d next =>
        rw [hm] at h
        obtain ⟨⟨s', r⟩, hs', he⟩ := Option.map_eq_some_iff.mp h
        cases he
        obtain ⟨s₁, h₁, hs₁⟩ := ih hs'
        refine ⟨d :: s₁, by simp only [h₁, Option.map_some]; rfl, fun hs => ?_⟩
        rw [List.mem_cons, not_or] at hs
        rw [hs₁ hs.2]
      | hold next => rw [hm] at h; exact ih h
      | close =>
        rw [hm] at h
        obtain ⟨rfl, hp⟩ := pairAhead_of_close hm
        obtain ⟨used, hcs, -, hq, -⟩ := closing_local hp
        rw [Option.some.inj h, List.append_nil] at hcs
        have hret : '\r' ∉ cs := fun hr => by cases hq _ (hcs ▸ hr)
        rw [keptChars_of_notMem hret]
        exact ⟨s, h, fun _ => rfl⟩
      | fail => rw [hm] at h; cases h

theorem returnsEnd_of_literalBlock {cs s : List Char} (h : literalBlock cs = some (s, [])) : ReturnsEnd cs := by
  induction cs generalizing s with
  | nil => trivial
  | cons c cs ih =>
    rw [literalBlock] at h
    split at h
    · rename_i hc
      rw [Bool.and_eq_true, decide_eq_true_eq] at hc
      obtain ⟨rfl, hp⟩ := hc
      obtain ⟨used, hcs, -, hq, -⟩ := closing_local hp
      rw [Option.some.inj h, List.append_nil] at hcs
      refine returnsEnd_of_notMem (List.not_mem_cons_of_ne_of_not_mem (by decide) fun hr => ?_)
      cases hq _ (hcs ▸ hr)
    · split at h
      · rename_i hp
        obtain ⟨⟨s', r⟩, hs, he⟩ := Option.map_eq_some_iff.mp h
        cases he
        refine ⟨?_, ih hs⟩
        rintro rfl
        simpa [isPlain] using hp
      · cases h

theorem literalBlock_keptChars {cs s : List Char} (h : literalBlock cs = some (s, [])) :
    ∃ s', literalBlock (keptChars cs) = some (s', []) := by
  induction cs generalizing s with
  | nil => cases h
  | cons c cs ih =>
    have hends := returnsEnd_of_literalBlock h
    rw [literalBlock] at h
    by_cases hc : c = '\r'
    · subst hc
      rw [if_neg (by simp)] at h
      split at h
      · obtain ⟨⟨s', r⟩, hs', he⟩ := Option.map_eq_some_iff.mp h
        cases he
        exact ih hs'
      · cases h
    · rw [keptChars_cons hc, literalBlock, pairAhead_keptChars hends.2 (by decide) (by decide)]
      split at h
      · rename_i hclose
        rw [if_pos hclose]
        rw [Bool.and_eq_true] at hclose
        obtain ⟨used, hcs, -, hq, -⟩ := closing_local hclose.2
        rw [Option.some.inj h, List.append_nil] at hcs
        have hret : '\r' ∉ cs := fun hr => by cases hq _ (hcs ▸ hr)
        rw [keptChars_of_notMem hret]
        exact ⟨s, h⟩
      · rename_i hclose
        rw [if_neg hclose]
        split at h
        · rename_i hp
          obtain ⟨⟨s', r⟩, hs', he⟩ := Option.map_eq_some_iff.mp h
          cases he
          obtain ⟨s₁, h₁⟩ := ih hs'
          simp only [hc, decide_false, Bool.false_and, Bool.or_false] at hp ⊢
          exact ⟨c :: s₁, by rw [if_pos hp, h₁]; rfl⟩
        · cases h

/-! ## Whole strings -/

theorem not_pairAhead_append {q : Char} {used rest rest' : List Char} (h : ¬pairAhead q (used ++ rest) = true)
    (hne : used ≠ []) (hr : rest'.head? ≠ some q) : ¬pairAhead q (used ++ rest') = true := by
  obtain ⟨c, used, rfl⟩ := List.exists_cons_of_ne_nil hne
  rw [List.cons_append, pairAhead_cons] at h ⊢
  rintro ⟨hc, hh⟩
  rcases used with _ | ⟨d, used⟩
  · exact hr hh
  · exact h ⟨hc, hh⟩

theorem lineString?_local {cs s rest : List Char} (h : lineString? cs = some (s, rest)) :
    ∃ used, cs = used ++ rest ∧ ∀ rest', rest'.head? ≠ some '"' → rest'.head? ≠ some '\'' →
      lineString? (used ++ rest') = some (s, rest') := by
  unfold lineString? at h
  split at h
  · split at h
    · cases h
    · rename_i hp
      obtain ⟨used, rfl, hne, -, hu⟩ := lineBody_local h
      refine ⟨'"' :: used, rfl, fun rest' h₁ _ => ?_⟩
      rw [List.cons_append, lineString?, if_neg (not_pairAhead_append hp hne h₁)]
      exact hu rest'
  · split at h
    · cases h
    · rename_i hp
      obtain ⟨used, rfl, hne, -, hu⟩ := literalLine_local h
      refine ⟨'\'' :: used, rfl, fun rest' _ h₂ => ?_⟩
      rw [List.cons_append, lineString?, if_neg (not_pairAhead_append hp hne h₂)]
      exact hu rest'
  · cases h

/-- A reader of strings that finds a string again in the text it has taken, whatever stands behind it but a quote. -/
def IsLocal (quote : Char) (read : List Char → Option (List Char × List Char)) : Prop :=
  ∀ cs s rest, read cs = some (s, rest) → ∃ used, cs = used ++ rest ∧ 3 ≤ used.length ∧
    ∀ rest', rest'.head? ≠ some quote → read (used ++ rest') = some (s, rest')

theorem isLocal_blockBody : IsLocal '"' (blockBody .none) := fun _ _ _ h => blockBody_local h

theorem isLocal_literalBlock : IsLocal '\'' literalBlock := by
  intro cs s rest h
  obtain ⟨used, hcs, hlen, -, hu⟩ := literalBlock_local h
  exact ⟨used, hcs, hlen, hu⟩

theorem skipLineEnd_local {body used rest : List Char} (h : skipLineEnd body = used ++ rest) (hlen : 3 ≤ used.length) :
    ∃ lead, body = lead ++ (used ++ rest) ∧ ∀ rest', skipLineEnd (lead ++ (used ++ rest')) = used ++ rest' := by
  unfold skipLineEnd at h
  split at h
  · exact ⟨['\n'], by rw [h]; rfl, fun rest' => rfl⟩
  · exact ⟨['\r', '\n'], by rw [h]; rfl, fun rest' => rfl⟩
  · rename_i h₁ h₂
    refine ⟨[], h, fun rest' => ?_⟩
    obtain ⟨a, used, rfl⟩ := List.exists_cons_of_length_pos (Nat.lt_of_lt_of_le (by decide) hlen)
    rw [List.length_cons] at hlen
    obtain ⟨b, used, rfl⟩ :=
      List.exists_cons_of_length_pos (Nat.lt_of_lt_of_le (by decide) (Nat.le_of_succ_le_succ hlen))
    have ha : a ≠ '\n' := fun he => h₁ (b :: (used ++ rest)) (by rw [h, he]; rfl)
    have hab : a = '\r' → b ≠ '\n' := fun he he' => h₂ (used ++ rest) (by rw [h, he, he']; rfl)
    rw [List.nil_append]
    unfold skipLineEnd
    split
    · rename_i he; exact absurd (List.cons.inj he).1 ha
    · rename_i he
      rw [List.cons_append, List.cons_append, List.cons.injEq, List.cons.injEq] at he
      exact absurd he.2.1 (hab he.1)
    · rfl

theorem IsLocal.behindQuotes {quote : Char} {read : List Char → Option (List Char × List Char)}
    (hread : IsLocal quote read) {body s rest : List Char} (h : read (skipLineEnd body) = some (s, rest)) :
    ∃ used, body = used ++ rest ∧
      ∀ rest', rest'.head? ≠ some quote → read (skipLineEnd (used ++ rest')) = some (s, rest') := by
  obtain ⟨used, hbody, hlen, hu⟩ := hread _ _ _ h
  obtain ⟨lead, rfl, hskip⟩ := skipLineEnd_local hbody hlen
  refine ⟨lead ++ used, (List.append_assoc _ _ _).symm, fun rest' hr => ?_⟩
  rw [List.append_assoc, hskip]
  exact hu rest' hr

/-- **A string is read again** in the text it was read from. -/
theorem string?_local {cs s rest : List Char} (h : string? cs = some (s, rest)) :
    ∃ used, cs = used ++ rest ∧ ∀ rest', rest'.head? ≠ some '"' → rest'.head? ≠ some '\'' →
      string? (used ++ rest') = some (s, rest') := by
  unfold string? at h
  split at h
  · split at h
    · rename_i hp
      obtain ⟨body, rfl⟩ := pairAhead_eq_true hp
      replace h : blockBody .none (skipLineEnd body) = some (s, rest) := h
      obtain ⟨used, hbody, hu⟩ := isLocal_blockBody.behindQuotes h
      exact ⟨'"' :: '"' :: '"' :: used, by rw [hbody]; rfl, fun rest' h₁ _ => hu rest' h₁⟩
    · rename_i hp
      obtain ⟨used, rfl, hne, -, hu⟩ := lineBody_local h
      refine ⟨'"' :: used, rfl, fun rest' h₁ _ => ?_⟩
      rw [List.cons_append, string?, if_neg (not_pairAhead_append hp hne h₁)]
      exact hu rest'
  · split at h
    · rename_i hp
      obtain ⟨body, rfl⟩ := pairAhead_eq_true hp
      replace h : literalBlock (skipLineEnd body) = some (s, rest) := h
      obtain ⟨used, hbody, hu⟩ := isLocal_literalBlock.behindQuotes h
      exact ⟨'\'' :: '\'' :: '\'' :: used, by rw [hbody]; rfl, fun rest' _ h₂ => hu rest' h₂⟩
    · rename_i hp
      obtain ⟨used, rfl, hne, -, hu⟩ := literalLine_local h
      refine ⟨'\'' :: used, rfl, fun rest' _ h₂ => ?_⟩
      rw [List.cons_append, string?, if_neg (not_pairAhead_append hp hne h₂)]
      exact hu rest'
  · cases h

/-! ## Whole strings without carriage returns -/

theorem skipLineEnd_keptChars {body : List Char} (h : ReturnsEnd (skipLineEnd body)) :
    skipLineEnd (keptChars body) = keptChars (skipLineEnd body) := by
  unfold skipLineEnd at h ⊢
  split at h
  · rfl
  · rfl
  · rename_i h₁ h₂
    rcases body with _ | ⟨c, body⟩
    · rfl
    · have hn : c ≠ '\n' := fun he => h₁ body (by rw [he])
      have hr : c ≠ '\r' := by
        intro he
        obtain ⟨r, rfl⟩ := startsLine_eq_true (h.1 he)
        exact h₂ r (by rw [he])
      rw [keptChars_cons hr]
      split
      · rename_i he; exact absurd (List.cons.inj he).1 hn
      · rename_i he; exact absurd (List.cons.inj he).1 hr
      · rfl

theorem mem_of_mem_skipLineEnd {c : Char} {body : List Char} (h : c ∈ skipLineEnd body) : c ∈ body := by
  unfold skipLineEnd at h
  split at h
  · exact List.mem_cons_of_mem _ h
  · exact List.mem_cons_of_mem _ (List.mem_cons_of_mem _ h)
  · exact h

/-- **Without carriage returns before its line ends a string is one still**, and the same one unless it
has a carriage return itself. -/
theorem string?_keptChars {cs s : List Char} (h : string? cs = some (s, [])) :
    ∃ s', string? (keptChars cs) = some (s', []) ∧ (('\n' ∈ cs → '\r' ∉ s) → s' = s) := by
  unfold string? at h
  split at h
  · split at h
    · rename_i hp
      obtain ⟨body, rfl⟩ := pairAhead_eq_true hp
      replace h : blockBody .none (skipLineEnd body) = some (s, []) := h
      have hends := returnsEnd_of_blockBody h
      show ∃ s', blockBody .none (skipLineEnd (keptChars body)) = some (s', []) ∧ _
      rw [skipLineEnd_keptChars hends]
      by_cases hr : '\r' ∈ skipLineEnd body
      · obtain ⟨s', hs', hsame⟩ := blockBody_keptChars h
        have hn := mem_of_mem_skipLineEnd (newline_mem_of_return hends hr)
        exact ⟨s', hs', fun hs => hsame (hs (by simp [hn]))⟩
      · rw [keptChars_of_notMem hr]
        exact ⟨s, h, fun _ => rfl⟩
    · rename_i hp
      obtain ⟨used, rfl, -, hret, -⟩ := lineBody_local h
      rw [List.append_nil] at hp h ⊢
      rw [keptChars_cons (by decide), keptChars_of_notMem hret, string?, if_neg hp]
      exact ⟨s, h, fun _ => rfl⟩
  · split at h
    · rename_i hp
      obtain ⟨body, rfl⟩ := pairAhead_eq_true hp
      replace h : literalBlock (skipLineEnd body) = some (s, []) := h
      show ∃ s', literalBlock (skipLineEnd (keptChars body)) = some (s', []) ∧ _
      rw [skipLineEnd_keptChars (returnsEnd_of_literalBlock h)]
      by_cases hr : '\r' ∈ skipLineEnd body
      · obtain ⟨s', hs'⟩ := literalBlock_keptChars h
        obtain ⟨used, hused, -, hret, -⟩ := literalBlock_local h
        rw [List.append_nil] at hused
        rw [← hused] at hret
        exact ⟨s', hs', fun hs => absurd (hret hr).2 (hs (by simp [mem_of_mem_skipLineEnd (hret hr).1]))⟩
      · rw [keptChars_of_notMem hr]
        exact ⟨s, h, fun _ => rfl⟩
    · rename_i hp
      obtain ⟨used, rfl, -, hret, -⟩ := literalLine_local h
      rw [List.append_nil] at hp h ⊢
      rw [keptChars_cons (by decide), keptChars_of_notMem hret, string?, if_neg hp]
      exact ⟨s, h, fun _ => rfl⟩
  · cases h

end Broadcast.Toml
