import Broadcast.Proofs.Toml.Quoting
import Broadcast.Toml.Edit
import Broadcast.Toml.Reader

/-!
# Written values

The values that the program writes itself are strings, natural numbers and
booleans. Each of them is read back, with the spelling it was written with, from
the end of its line.
-/

namespace Broadcast.Toml

/-! ## Digits -/

theorem isDigit_iff {c : Char} : c.isDigit = true ↔ 48 ≤ c.toNat ∧ c.toNat ≤ 57 := by
  simp [Char.isDigit, UInt32.le_iff_toNat_le]

theorem digit?_of_isDigit {c : Char} (h : c.isDigit = true) : digit? 10 c = some (c.toNat - '0'.toNat) := by
  obtain ⟨h₀, h₉⟩ := isDigit_iff.mp h
  have hc : '0' ≤ c ∧ c ≤ '9' := ⟨UInt32.le_iff_toNat_le.mpr h₀, UInt32.le_iff_toNat_le.mpr h₉⟩
  have hz : '0'.toNat = 48 := rfl
  have hlt : c.toNat - '0'.toNat < 10 := by omega
  unfold digit? hexDigit?
  rw [if_pos hc, Option.filter_some, if_pos (decide_eq_true hlt)]

theorem grouped?_digits {cs : List Char} (hne : cs ≠ []) (h : ∀ c ∈ cs, c.isDigit = true) :
    grouped? 10 cs = some (cs.map fun c => c.toNat - '0'.toNat) := by
  induction cs with
  | nil => exact absurd rfl hne
  | cons c cs ih =>
    have hc := digit?_of_isDigit (h c List.mem_cons_self)
    rcases cs with _ | ⟨d, ds⟩
    · simp only [grouped?, hc, Option.map_some, List.map_cons, List.map_nil]
    · have ih := ih (List.cons_ne_nil d ds) (fun e he => h e (List.mem_cons_of_mem c he))
      have hd : d ≠ '_' := by
        rintro rfl
        exact absurd (h '_' (List.mem_cons_of_mem c List.mem_cons_self)) (by decide)
      rw [grouped?]
      · simp [hc, ih]
      · exact List.cons_ne_nil d ds
      · exact fun ds' he => hd (List.cons.inj he).1

theorem ofDigits_digits (cs : List Char) :
    ofDigits 10 (cs.map fun c => c.toNat - '0'.toNat) = Nat.ofDigitChars 10 cs 0 := by
  rw [Nat.ofDigitChars_eq_foldl, ofDigits, List.foldl_map]

theorem isDigit_of_mem_repr {n : Nat} {c : Char} (h : c ∈ (Nat.repr n).toList) : c.isDigit = true := by
  rw [Nat.toList_repr] at h
  exact Nat.isDigit_of_mem_toDigits (by decide) (by decide) h

theorem repr_toList_ne_nil (n : Nat) : (Nat.repr n).toList ≠ [] := by
  rw [Nat.toList_repr]
  exact Nat.toDigits_ne_nil

theorem head?_toDigits (n : Nat) (h : n ≠ 0) : (Nat.toDigits 10 n).head? ≠ some '0' := by
  induction n using Nat.strongRecOn with
  | ind n ih =>
    rw [Nat.toDigits_eq_if (by decide)]
    split
    · rename_i hlt
      have : ∀ n, n < 10 → n ≠ 0 → [n.digitChar].head? ≠ some '0' := by decide
      exact this n hlt h
    · have hq : n / 10 ≠ 0 := by omega
      have ih := ih (n / 10) (by omega) hq
      rcases hds : Nat.toDigits 10 (n / 10) with _ | ⟨c, cs⟩
      · exact absurd hds Nat.toDigits_ne_nil
      · rw [hds] at ih; exact ih

theorem decimal?_repr (n : Nat) :
    decimal? (Nat.repr n).toList = some ((Nat.repr n).toList.map fun c => c.toNat - '0'.toNat) := by
  have hne := repr_toList_ne_nil n
  unfold decimal?
  rw [grouped?_digits hne (fun c => isDigit_of_mem_repr), Option.filter_some, if_pos]
  by_cases hn : n = 0
  · subst hn; decide
  · have hh := head?_toDigits n hn
    rw [← Nat.toList_repr] at hh
    have hd : ∀ c ∈ (Nat.repr n).toList, c.isDigit = true := fun c => isDigit_of_mem_repr
    generalize (Nat.repr n).toList = cs at hne hh hd
    rcases cs with _ | ⟨c, cs⟩
    · rfl
    · have hc : c.toNat - '0'.toNat ≠ 0 := by
        intro he
        have hdig := isDigit_iff.mp (hd c List.mem_cons_self)
        have hz : '0'.toNat = 48 := rfl
        refine hh (congrArg some (Char.ext (UInt32.toNat_inj.mp ?_)))
        show c.toNat = 48
        omega
      rw [List.map_cons]
      split
      · rename_i he
        exact absurd (List.cons.inj he).1 hc
      · rfl

theorem integer?_repr {n : Nat} (h : (n : Int) < int64Limit) : integer? (Nat.repr n).toList = some (n : Int) := by
  have hd : ∀ c ∈ (Nat.repr n).toList, c.isDigit = true := fun c => isDigit_of_mem_repr
  have hv : (decimal? (Nat.repr n).toList).bind (fun ds => int64? (ofDigits 10 ds)) = some (n : Int) := by
    rw [decimal?_repr, Option.bind_some, ofDigits_digits, Nat.toList_repr, Nat.ofDigitChars_ten_toDigits]
    have hl : -int64Limit ≤ 0 := by decide
    exact if_pos ⟨by omega, h⟩
  unfold integer?
  split
  · rename_i he; rw [he] at hd; exact absurd (hd 'x' (by simp)) (by decide)
  · rename_i he; rw [he] at hd; exact absurd (hd 'o' (by simp)) (by decide)
  · rename_i he; rw [he] at hd; exact absurd (hd 'b' (by simp)) (by decide)
  · rename_i he; rw [he] at hd; exact absurd (hd '+' (by simp)) (by decide)
  · rename_i he; rw [he] at hd; exact absurd (hd '-' (by simp)) (by decide)
  · exact hv

/-! ## No date -/

theorem two?_suffix {low high n : Nat} {cs rest : List Char} (h : two? low high cs = some (n, rest)) : rest <:+ cs := by
  unfold two? at h
  split at h
  · rename_i a b r
    simp only [bind, Option.bind_eq_some_iff] at h
    obtain ⟨x, -, y, -, h⟩ := h
    split at h
    · cases h; exact ⟨[a, b], rfl⟩
    · cases h
  · cases h

theorem expect_eq_some {c : Char} {cs rest : List Char} (h : expect c cs = some rest) : cs = c :: rest := by
  unfold expect at h
  split at h
  · split at h
    · rename_i hc; cases h; rw [hc]
    · cases h
  · cases h

theorem dash_mem_of_date? {cs rest : List Char} (h : date? cs = some rest) : '-' ∈ cs := by
  unfold date? at h
  simp only [bind, Option.bind_eq_some_iff] at h
  obtain ⟨⟨_, cs₁⟩, h₁, ⟨_, cs₂⟩, h₂, cs₃, h₃, -⟩ := h
  have he : cs₂ = '-' :: cs₃ := expect_eq_some h₃
  exact (two?_suffix h₁).subset ((two?_suffix h₂).subset (he ▸ List.mem_cons_self))

theorem colon_mem_of_time? {cs rest : List Char} (h : time? cs = some rest) : ':' ∈ cs := by
  unfold time? at h
  simp only [bind, Option.bind_eq_some_iff] at h
  obtain ⟨⟨_, cs₁⟩, h₁, cs₂, h₂, -⟩ := h
  have he : cs₁ = ':' :: cs₂ := expect_eq_some h₂
  exact (two?_suffix h₁).subset (he ▸ List.mem_cons_self)

theorem isDateTime_eq_false {cs : List Char} (h₁ : '-' ∉ cs) (h₂ : ':' ∉ cs) : isDateTime cs = false := by
  have hd : date? cs = none := by
    cases h : date? cs with
    | none => rfl
    | some rest => exact absurd (dash_mem_of_date? h) h₁
  have ht : time? cs = none := by
    cases h : time? cs with
    | none => rfl
    | some rest => exact absurd (colon_mem_of_time? h) h₂
  unfold isDateTime
  rw [hd, ht]
  rfl

/-! ## Reading back -/

/-- The scalars that the program writes itself. -/
inductive Scalar.IsPlain : Scalar → Prop
  | string (s : String) : IsPlain (.string s)
  | natural {n : Nat} (h : (n : Int) < int64Limit) : IsPlain (.integer n)
  | boolean (b : Bool) : IsPlain (.boolean b)

theorem scalarOf?_repr {n : Nat} (h : (n : Int) < int64Limit) : scalarOf? (Nat.repr n).toList = some (.integer n) := by
  have hd : ∀ c ∈ (Nat.repr n).toList, c.isDigit = true := fun c => isDigit_of_mem_repr
  have ht : (Nat.repr n).toList ≠ ['t', 'r', 'u', 'e'] := fun he =>
    absurd (hd 't' (he ▸ List.mem_cons_self)) (by decide)
  have hf : (Nat.repr n).toList ≠ ['f', 'a', 'l', 's', 'e'] := fun he =>
    absurd (hd 'f' (he ▸ List.mem_cons_self)) (by decide)
  have hdt := isDateTime_eq_false (fun hm => absurd (hd '-' hm) (by decide)) (fun hm => absurd (hd ':' hm) (by decide))
  unfold scalarOf?
  rw [if_neg ht, if_neg hf, hdt, integer?_repr h]
  rfl

theorem written_natural (n : Nat) : (Scalar.integer n).written = Nat.repr n := by
  have hneg : ¬ (n : Int) < 0 := by omega
  simp only [Scalar.written, hneg, ite_false, Int.natAbs_natCast]

theorem token_line {cs : List Char} (h : ∀ c ∈ cs, isTokenChar c = true) (rest : List Char) :
    token (cs ++ '\n' :: rest) = (cs, '\n' :: rest) := by
  have ht : (cs ++ '\n' :: rest).takeWhile isTokenChar = cs := by
    rw [List.takeWhile_append_of_pos h]
    simp [isTokenChar]
  have hd : (cs ++ '\n' :: rest).dropWhile isTokenChar = '\n' :: rest := by
    rw [List.dropWhile_append_of_pos h]
    simp [isTokenChar]
  unfold token
  simp only [ht, hd]
  rfl

theorem string?_eq_none {cs : List Char} (h₁ : cs.head? ≠ some '"') (h₂ : cs.head? ≠ some '\'') :
    string? cs = none := by
  unfold string?
  split
  · exact absurd rfl h₁
  · exact absurd rfl h₂
  · rfl

theorem ne_of_isDigit {c d : Char} (h : c.isDigit = true) (hd : d.isDigit = false) : c ≠ d := by
  rintro rfl
  rw [h] at hd; cases hd

theorem isTokenChar_of_isDigit {c : Char} (h : c.isDigit = true) : isTokenChar c = true := by
  have hne : ∀ d : Char, d.isDigit = false → c ≠ d := fun _ => ne_of_isDigit h
  simp [isTokenChar, hne]

theorem scalar?_token {cs : List Char} {c : Char} (hc : cs.head? = some c) (h : ∀ c ∈ cs, isTokenChar c = true)
    (h₁ : c ≠ '"') (h₂ : c ≠ '\'') {v : Scalar} (hv : scalarOf? cs = some v) (rest : List Char) :
    scalar? (cs ++ '\n' :: rest) = some (.scalar v (String.ofList cs) {}, '\n' :: rest) := by
  have hh : (cs ++ '\n' :: rest).head? = some c := by rw [List.head?_append, hc]; rfl
  have hs : string? (cs ++ '\n' :: rest) = none := by
    refine string?_eq_none ?_ ?_ <;> rw [hh]
    · exact fun he => h₁ (Option.some.inj he)
    · exact fun he => h₂ (Option.some.inj he)
  unfold scalar?
  simp only [hs, token_line h, hv, Option.map_some]

theorem kept_written (cs : List Char) : kept ((Style.of cs).written cs) = String.ofList ((Style.of cs).written cs) := by
  unfold kept
  congr 1
  refine List.filter_eq_self.mpr fun c hc => ?_
  have hr : c ≠ '\r' := fun he => return_notMem_written cs (he ▸ hc)
  simpa using hr

theorem scalar?_quoted (s : String) (rest : List Char) :
    scalar? ((quoted s).toList ++ '\n' :: rest) = some (.scalar (.string s) (quoted s) {}, '\n' :: rest) := by
  unfold quoted
  rw [String.toList_ofList]
  unfold scalar?
  rw [string?_written (by simp) (by simp)]
  have ht : ((Style.of s.toList).written s.toList ++ '\n' :: rest).take
      (((Style.of s.toList).written s.toList ++ '\n' :: rest).length - ('\n' :: rest).length) =
        (Style.of s.toList).written s.toList := by
    rw [List.length_append, Nat.add_sub_cancel, List.take_left]
  simp only [ht, kept_written, String.ofList_toList]

theorem written_eq_cons {v : Scalar} (h : v.IsPlain) : ∃ c cs, v.written.toList = c :: cs ∧
    isBlank c = false ∧ c ≠ '[' ∧ c ≠ '\x7b' := by
  cases h with
  | string s =>
    have hs : ∀ st : Style, ∃ c cs, st.written s.toList = c :: cs ∧ isBlank c = false ∧ c ≠ '[' ∧ c ≠ '\x7b' := by
      intro st
      cases st <;> exact ⟨_, _, rfl, by decide, by decide, by decide⟩
    obtain ⟨c, cs, hw, hc⟩ := hs (Style.of s.toList)
    refine ⟨c, cs, ?_, hc⟩
    rw [← hw]
    exact String.toList_ofList
  | @natural n hn =>
    obtain ⟨c, cs, hcs⟩ := List.exists_cons_of_ne_nil (repr_toList_ne_nil n)
    have hc : c.isDigit = true := isDigit_of_mem_repr (hcs ▸ List.mem_cons_self)
    refine ⟨c, cs, by rw [written_natural, hcs], ?_, ne_of_isDigit hc (by decide), ne_of_isDigit hc (by decide)⟩
    simp [isBlank, ne_of_isDigit hc (d := ' ') (by decide), ne_of_isDigit hc (d := '\t') (by decide)]
  | boolean b => cases b <;> exact ⟨_, _, rfl, by decide, by decide, by decide⟩

/-- **A written value is read back** with its spelling. -/
theorem scalar?_written {v : Scalar} (h : v.IsPlain) (rest : List Char) :
    scalar? (v.written.toList ++ '\n' :: rest) = some (.scalar v v.written {}, '\n' :: rest) := by
  cases h with
  | string s => exact scalar?_quoted s rest
  | @natural n hn =>
    obtain ⟨c, cs, hcs⟩ := List.exists_cons_of_ne_nil (repr_toList_ne_nil n)
    have hc : c.isDigit = true := isDigit_of_mem_repr (hcs ▸ List.mem_cons_self)
    rw [written_natural]
    have := scalar?_token (c := c) (by rw [hcs]; rfl) (fun c hm => isTokenChar_of_isDigit (isDigit_of_mem_repr hm))
      (ne_of_isDigit hc (by decide)) (ne_of_isDigit hc (by decide)) (scalarOf?_repr hn) rest
    rw [String.ofList_toList] at this
    exact this
  | boolean b => cases b <;> exact scalar?_token rfl (List.all_eq_true.mp (by decide)) (by decide) (by decide) rfl rest

theorem node?_written {v : Scalar} (h : v.IsPlain) (depth : Nat) (rest : List Char) :
    node? (depth + 1) (v.written.toList ++ '\n' :: rest) = some (.scalar v v.written {}, '\n' :: rest) := by
  obtain ⟨c, cs, hcs, -, h₁, h₂⟩ := written_eq_cons h
  have hn : node? (depth + 1) (v.written.toList ++ '\n' :: rest) = scalar? (v.written.toList ++ '\n' :: rest) := by
    rw [hcs, List.cons_append, node?]
    · exact fun r he => h₁ (List.cons.inj he).1
    · exact fun r he => h₂ (List.cons.inj he).1
  rw [hn, scalar?_written h]

end Broadcast.Toml
