import Broadcast.Proofs.Toml.Strings
import Broadcast.Proofs.Toml.Core
import Broadcast.Toml.Printer

/-!
# Keys and paths, again

A key that was read is read again in its spelling, and so is a path of such keys,
also when they come from different paths.
-/

namespace Broadcast.Toml

def IsBlankText (s : String) : Prop := ∀ c ∈ s.toList, isBlank c = true

def IsKeyEnd (cs : List Char) : Prop := ∃ c r, cs = c :: r ∧ isBare c = false ∧ c ≠ '"' ∧ c ≠ '\''

def startsKey (c : Char) : Bool := isBare c || c = '"' || c = '\''

/-- A key whose spelling is read as the key, with nothing but blanks at the dots beside it. -/
structure Key.Spelled (k : Key) : Prop where
  again : ∀ rest, IsKeyEnd rest → key? (k.spelling.toList ++ rest) = some (⟨k.name, k.spelling, {}, {}⟩, rest)
  before : IsBlankText k.dots.before
  after : IsBlankText k.dots.after

theorem IsKeyEnd.head_ne {cs : List Char} (h : IsKeyEnd cs) : cs.head? ≠ some '"' ∧ cs.head? ≠ some '\'' := by
  obtain ⟨c, r, rfl, -, h₁, h₂⟩ := h
  exact ⟨fun he => h₁ (Option.some.inj he), fun he => h₂ (Option.some.inj he)⟩

theorem isKeyEnd_of_isBlank {c : Char} (h : isBlank c = true) (cs : List Char) : IsKeyEnd (c :: cs) := by
  refine ⟨c, cs, rfl, ?_, ?_, ?_⟩
  · by_contra hb
    rw [Bool.not_eq_false] at hb
    rw [isBlank_of_isBare hb] at h
    cases h
  · rintro rfl; cases h
  · rintro rfl; cases h

theorem isKeyEnd_append {b cs : List Char} (hb : ∀ c ∈ b, isBlank c = true) (h : IsKeyEnd cs) : IsKeyEnd (b ++ cs) := by
  rcases b with _ | ⟨c, b⟩
  · exact h
  · exact isKeyEnd_of_isBlank (hb c List.mem_cons_self) (b ++ cs)

/-! ## Keys -/

theorem startsKey_of_key? {c : Char} {cs : List Char} {r : Key × List Char} (h : key? (c :: cs) = some r) :
    startsKey c = true := by
  unfold key? at h
  split at h
  · rename_i hs
    unfold lineString? at hs
    split at hs
    · rename_i he; rw [(List.cons.inj he).1]; rfl
    · rename_i he; rw [(List.cons.inj he).1]; rfl
    · cases hs
  · simp only at h
    split at h
    · cases h
    · rename_i hne
      cases hb : isBare c with
      | true => simp [startsKey, hb]
      | false => rw [List.takeWhile_cons_of_neg (by simp [hb])] at hne; exact absurd rfl hne

theorem key?_again {cs rest : List Char} {k : Key} (h : key? cs = some (k, rest)) :
    k = ⟨k.name, k.spelling, {}, {}⟩ ∧
      ∀ rest', IsKeyEnd rest' → key? (k.spelling.toList ++ rest') = some (⟨k.name, k.spelling, {}, {}⟩, rest') := by
  unfold key? at h
  split at h
  · rename_i name rest₁ hs
    obtain ⟨used, rfl, hu⟩ := lineString?_local hs
    rw [take_used] at h
    cases h
    refine ⟨rfl, fun rest' hr => ?_⟩
    simp only [String.toList_ofList]
    unfold key?
    rw [hu rest' hr.head_ne.1 hr.head_ne.2]
    simp only [take_used]
  · simp only at h
    split at h
    · cases h
    · rename_i hne
      cases h
      refine ⟨rfl, fun rest' hr => ?_⟩
      obtain ⟨c, r, rfl, hc, -⟩ := hr
      have hname : IsBareName (String.ofList (cs.takeWhile isBare)) := by
        rw [IsBareName, String.toList_ofList]
        exact ⟨by simpa using hne, List.all_takeWhile⟩
      exact key?_bare hname hc r

theorem Key.Spelled.starts {k : Key} (h : k.Spelled) : ∃ c r, k.spelling.toList = c :: r ∧ startsKey c = true := by
  have hk := h.again ['='] ⟨'=', [], rfl, by decide, by decide, by decide⟩
  rcases hs : k.spelling.toList with _ | ⟨c, r⟩
  · rw [hs] at hk; cases hk
  · rw [hs] at hk
    exact ⟨c, r, rfl, startsKey_of_key? hk⟩

theorem isSolid_of_startsKey {c : Char} (h : startsKey c = true) : isSolid c = true := by
  simp only [startsKey, Bool.or_eq_true, decide_eq_true_eq] at h
  rcases h with (h | rfl) | rfl
  · have hne (d : Char) (hd : isBare d = false) : c ≠ d := ne_of_isBare h hd
    simp [isSolid, isBlank_of_isBare h, hne '\n' (by decide), hne '\r' (by decide), hne '#' (by decide)]
  · rfl
  · rfl

theorem isBlank_of_isSolid {c : Char} (h : isSolid c = true) : isBlank c = false := by
  simp only [isSolid, Bool.and_eq_true, Bool.not_eq_true'] at h
  exact h.2

theorem startsKey_ne {c d : Char} (h : startsKey c = true) (hd : startsKey d = false) : c ≠ d := by
  rintro rfl
  rw [h] at hd; cases hd

/-! ## Paths -/

/-- A path as it is read: its keys are spelled, and only blanks stand behind it. -/
structure KeyPath.IsRead (p : KeyPath) : Prop where
  spelled : ∀ k ∈ p.keys, k.Spelled
  bare : ∀ k ∈ p.parents, k.margin = {}
  before : p.leaf.margin.before = ""
  after : IsBlankText p.leaf.margin.after

theorem blanks_fst (cs : List Char) : IsBlankText (String.ofList (blanks cs).1) := by
  intro c hc
  rw [String.toList_ofList] at hc
  exact List.all_eq_true.mp List.all_takeWhile c hc

theorem path?_isRead {fuel : Nat} {before : String} {cs rest : List Char} {p : KeyPath} (hb : IsBlankText before)
    (h : path? fuel before cs = some (p, rest)) : p.IsRead ∧ p.keys.length ≤ fuel := by
  induction fuel generalizing before cs p with
  | zero => cases h
  | succ fuel ih =>
    obtain ⟨⟨k, cs₁⟩, hk, h⟩ := Option.bind_eq_some_iff.mp h
    obtain ⟨hplain, hagain⟩ := key?_again hk
    have hspelled (dots : Margin) (margin : Margin) (h₁ : IsBlankText dots.before) (h₂ : IsBlankText dots.after) :
        Key.Spelled ⟨k.name, k.spelling, margin, dots⟩ := ⟨hagain, h₁, h₂⟩
    simp only at h
    split at h
    · obtain ⟨⟨p', cs₂⟩, hp, h⟩ := Option.bind_eq_some_iff.mp h
      cases h
      obtain ⟨hr, hlen⟩ := ih (blanks_fst _) hp
      refine ⟨⟨?_, ?_, hr.before, hr.after⟩, Nat.succ_le_succ hlen⟩
      · exact List.forall_mem_cons.mpr ⟨hspelled _ _ hb (blanks_fst _), hr.spelled⟩
      · refine List.forall_mem_cons.mpr ⟨?_, hr.bare⟩
        rw [hplain]
    · cases h
      refine ⟨⟨?_, by simp, rfl, blanks_fst _⟩, ?_⟩
      · exact List.forall_mem_singleton.mpr (hspelled _ _ hb (by simp [IsBlankText]))
      · simp [KeyPath.keys]

theorem inner_cons_cons (k next : Key) (ks : List Key) (rest : List Char) :
    (pathText.inner (k :: next :: ks)).toList ++ rest = k.spelling.toList ++
      (k.dots.after.toList ++ '.' :: (next.dots.before.toList ++ ((pathText.inner (next :: ks)).toList ++ rest))) := by
  simp [pathText.inner]

theorem head_inner {k : Key} (h : k.Spelled) (ks : List Key) (rest : List Char) :
    ∃ c r, (pathText.inner (k :: ks)).toList ++ rest = c :: r ∧ startsKey c = true := by
  obtain ⟨c, r, hs, hc⟩ := h.starts
  rcases ks with _ | ⟨next, ks⟩
  · exact ⟨c, r ++ rest, by rw [pathText.inner, hs]; rfl, hc⟩
  · rw [inner_cons_cons, hs]
    exact ⟨c, _, rfl, hc⟩

/-- **A path is read again**, up to text that goes on with no dot. -/
theorem path?_again {ks : List Key} {leaf : Key} (hks : ∀ k ∈ ks ++ [leaf], k.Spelled) {rest : List Char}
    (hr : IsKeyEnd rest)
    (hdot : (blanks rest).2.head? ≠ some '.') : ∀ (fuel : Nat) (before : String), ks.length < fuel →
    ∃ p, path? fuel before ((pathText.inner (ks ++ [leaf])).toList ++ rest) = some (p, (blanks rest).2) ∧
      p.core = (⟨ks, leaf⟩ : KeyPath).core := by
  induction ks with
  | nil =>
    intro fuel before hfuel
    obtain ⟨fuel, rfl⟩ := Nat.exists_eq_succ_of_ne_zero (Nat.ne_of_gt hfuel)
    have hk := (hks leaf (by simp)).again rest hr
    refine ⟨⟨[], ⟨leaf.name, leaf.spelling, ⟨"", String.ofList (blanks rest).1⟩, ⟨before, ""⟩⟩⟩, ?_, rfl⟩
    rw [List.nil_append, pathText.inner, path?, hk]
    simp only [bind, Option.bind_some]
    split
    · rename_i he
      rw [he] at hdot
      exact absurd rfl hdot
    · rfl
  | cons k ks ih =>
    intro fuel before hfuel
    obtain ⟨fuel, rfl⟩ := Nat.exists_eq_succ_of_ne_zero (Nat.ne_of_gt (Nat.zero_lt_of_lt hfuel))
    rw [List.cons_append, List.forall_mem_cons] at hks
    obtain ⟨hk, hks⟩ := hks
    obtain ⟨next, more, hnext⟩ : ∃ next more, ks ++ [leaf] = next :: more := List.exists_cons_of_ne_nil (by simp)
    obtain ⟨c, r, hc, hstart⟩ := head_inner (hks next (by rw [hnext]; exact List.mem_cons_self)) more rest
    have hbefore : ∀ d ∈ next.dots.before.toList, isBlank d = true :=
      (hks next (by rw [hnext]; exact List.mem_cons_self)).before
    obtain ⟨p, hp, hcore⟩ := ih hks fuel next.dots.before (Nat.lt_of_succ_lt_succ hfuel)
    rw [hnext] at hp
    refine ⟨⟨⟨k.name, k.spelling, {}, ⟨before, k.dots.after⟩⟩ :: p.parents, p.leaf⟩, ?_, ?_⟩
    · have hdotEnd : IsKeyEnd ('.' :: (next.dots.before.toList ++ ((pathText.inner (next :: more)).toList ++ rest))) :=
        ⟨_, _, rfl, by decide, by decide, by decide⟩
      rw [List.cons_append, hnext, inner_cons_cons, path?, hk.again _ (isKeyEnd_append hk.after hdotEnd)]
      simp only [bind, Option.bind_some]
      rw [blanks_append hk.after (by decide)]
      simp only [String.ofList_toList]
      rw [hc, blanks_append hbefore (isBlank_of_isSolid (isSolid_of_startsKey hstart)), ← hc]
      simp only [String.ofList_toList, hp, Option.bind_some]
    · have hparents := congrArg KeyPath.parents hcore
      have hleaf := congrArg KeyPath.leaf hcore
      simp only [KeyPath.core] at hparents hleaf ⊢
      rw [List.map_cons, hparents, hleaf]
      rfl

end Broadcast.Toml
