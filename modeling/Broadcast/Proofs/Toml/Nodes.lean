import Broadcast.Proofs.Toml.Values

/-!
# Arrays and inline tables, again

What stands between brackets and braces is read again part by part. The lines of an
inline table may come in another order, but they build the same table.
-/

namespace Broadcast.Toml

/-! ## Between brackets -/

section
variable {read : ReadNode} {n : Node}

theorem ReadNode.IsGood.body_starts (hread : read.IsGood) (h : n.ReadsAgain read) :
    ∃ c r, n.body = c :: r ∧ startsValue c = true := by
  obtain ⟨n', hn, -⟩ := h ['\n'] ⟨'\n', [], rfl, rfl, by simp⟩
  rcases hb : n.body with _ | ⟨c, r⟩
  · rw [hb] at hn
    cases hread.starts _ _ _ hn
  · rw [hb] at hn
    exact ⟨c, r, rfl, hread.starts _ _ _ hn⟩

/-- The parts between brackets: commas between them, perhaps one behind them, and the text that
follows. It starts behind a bracket or a comma. -/
def listChars (comma : Bool) (tail : String) : List String → List Char
  | [] => tail.toList
  | t :: ts => t.toList ++ if ts.isEmpty && !comma then [] else ',' :: listChars comma tail ts

theorem toList_intercalate_list {comma : Bool} {tail : String} {ts : List String} (h₁ : ts = [] → comma = false)
    (h₂ : ts ≠ [] → comma = false → tail = "") :
    (String.intercalate "," ts ++ (if comma then "," else "") ++ tail).toList = listChars comma tail ts := by
  have hcons : ∀ t ts, (comma = false → tail = "") →
      (String.intercalate "," (t :: ts) ++ (if comma then "," else "") ++ tail).toList =
        listChars comma tail (t :: ts) := by
    intro t ts htail
    induction ts generalizing t with
    | nil =>
      cases comma with
      | true => simp [listChars]
      | false => simp [listChars, htail rfl]
    | cons u ts ih =>
      have ih := ih u
      rw [String.intercalate_cons_cons, listChars, ← ih]
      simp [String.append_assoc]
  rcases ts with _ | ⟨t, ts⟩
  · simp [listChars, h₁ rfl]
  · exact hcons t ts (h₂ (List.cons_ne_nil t ts))

theorem length_le_listChars (comma : Bool) (tail : String) (ts : List String) :
    ts.length ≤ (listChars comma tail ts).length + 1 := by
  induction ts with
  | nil => exact Nat.zero_le _
  | cons t ts ih =>
    rw [listChars, List.length_append]
    split
    · rename_i h
      rw [Bool.and_eq_true, List.isEmpty_iff] at h
      rw [h.1]
      exact Nat.le_add_left _ _
    · rw [List.length_cons, List.length_cons]
      omega

theorem items?_cases {fuel : Nat} {start : Option (List Node × Bool × String × List Char)} {cs : List Char}
    {r : List Node × Bool × String × List Char} (h : items? read (fuel + 1) start cs = some r) :
    ∃ before cs₁, trivia false cs = some (before, cs₁) ∧
      ((∃ rest, cs₁ = ']' :: rest ∧ start.map (fun s => (s.1, s.2.1, kept before, rest)) = some r) ∨
        ∃ n cs₂ after cs₃, read cs₁ = some (n, cs₂) ∧ trivia false cs₂ = some (after, cs₃) ∧
          ((∃ rest, cs₃ = ']' :: rest ∧ r = ([n.withMargin ⟨kept before, kept after⟩], false, "", rest)) ∨
            ∃ rest ns r', cs₃ = ',' :: rest ∧ items? read fuel (some ([], true, "", [])) rest = some (ns, r') ∧
              r = (n.withMargin ⟨kept before, kept after⟩ :: ns, r'))) := by
  obtain ⟨⟨before, cs₁⟩, hb, h⟩ := Option.bind_eq_some_iff.mp h
  refine ⟨before, cs₁, hb, ?_⟩
  simp only at h
  split at h
  · exact .inl ⟨_, rfl, h⟩
  · obtain ⟨⟨n, cs₂⟩, hn, h⟩ := Option.bind_eq_some_iff.mp h
    obtain ⟨⟨after, cs₃⟩, ha, h⟩ := Option.bind_eq_some_iff.mp h
    refine .inr ⟨n, cs₂, after, cs₃, hn, ha, ?_⟩
    simp only at h
    split at h
    · cases h
      exact .inl ⟨_, rfl, rfl⟩
    · obtain ⟨⟨ns, r'⟩, hns, h⟩ := Option.bind_eq_some_iff.mp h
      cases h
      exact .inr ⟨_, ns, r', rfl, hns, rfl⟩
    · cases h

theorem items?_isRead (hread : read.IsGood) {fuel : Nat} {c : Bool} {t : String} {r cs : List Char} {items : List Node}
    {comma : Bool} {tail : String} {rest : List Char}
    (h : items? read fuel (some ([], c, t, r)) cs = some (items, comma, tail, rest)) :
    (∀ n ∈ items, n.IsFramed IsGap IsGap read) ∧ IsGap tail.toList ∧ (items = [] → comma = c) ∧
      (items ≠ [] → comma = false → tail = "") := by
  induction fuel generalizing c t r cs items comma tail rest with
  | zero => cases h
  | succ fuel ih =>
    obtain ⟨before, cs₁, hb, ⟨rest', rfl, he⟩ | ⟨n, cs₂, after, cs₃, hn, ha, hr⟩⟩ := items?_cases h
    · cases he
      exact ⟨by simp, isGap_of_trivia hb (List.cons_ne_nil _ _), fun _ => rfl, fun hne => absurd rfl hne⟩
    · have hcs₁ : cs₁ ≠ [] := by
        rintro rfl
        rw [hread.nil] at hn
        cases hn
      have hframed (hcs₃ : cs₃ ≠ []) : (n.withMargin ⟨kept before, kept after⟩).IsFramed IsGap IsGap read :=
        ⟨n, _, rfl, hread.isRead _ _ _ hn, isGap_of_trivia hb hcs₁, isGap_of_trivia ha hcs₃⟩
      rcases hr with ⟨rest', rfl, he⟩ | ⟨rest', ns, r', rfl, hns, he⟩
      · cases he
        exact ⟨List.forall_mem_singleton.mpr (hframed (List.cons_ne_nil _ _)), isGap_nil, by simp, fun _ _ => rfl⟩
      · cases he
        obtain ⟨hitems, htail, hc, hshape⟩ := ih hns
        refine ⟨List.forall_mem_cons.mpr ⟨hframed (List.cons_ne_nil _ _), hitems⟩, htail, by simp, fun _ hcomma => ?_⟩
        by_cases hne : ns = []
        · rw [hc hne] at hcomma; cases hcomma
        · exact hshape hne hcomma

theorem Node.IsFramed.again (hread : read.IsGood) (h : n.IsFramed IsGap IsGap read) (hd : n.misspells = false)
    {c : Char} (hs : isSolid c = true) (hc : isBreak c = true) (rest : List Char) :
    ∃ before d cs₁ n' cs₂ after, trivia false (n.text.toList ++ c :: rest) = some (before, d :: cs₁) ∧
      startsValue d = true ∧ read (d :: cs₁) = some (n', cs₂) ∧ trivia false cs₂ = some (after, c :: rest) ∧
      n'.core = n.core := by
  obtain ⟨n₀, m, rfl, hn, hb, ha⟩ := h
  rw [Node.misspells_withMargin] at hd
  obtain ⟨d, cs₁, hbody, hstart⟩ := hread.body_starts (hn.again hd)
  obtain ⟨n', hn', hcore⟩ := hn.again hd _ (ha.isBreak hs hc rest)
  rw [hbody] at hn'
  refine ⟨m.before.toList, d, _, n', _, m.after.toList, ?_, hstart, hn', ha _ ⟨c, rest, rfl, hs⟩, ?_⟩
  · rw [text_withMargin hn.value, List.append_assoc, List.append_assoc, hbody]
    exact hb _ ⟨d, _, rfl, isSolid_of_startsValue hstart⟩
  · rw [hcore, Node.core_withMargin]

section
variable {cs cs₁ cs₂ before after rest : List Char} {d : Char}

theorem items?_last (h₁ : trivia false cs = some (before, d :: cs₁)) (hd : startsValue d = true)
    (h₂ : read (d :: cs₁) = some (n, cs₂)) (h₃ : trivia false cs₂ = some (after, ']' :: rest)) (fuel : Nat)
    (start : Option (List Node × Bool × String × List Char)) :
    items? read (fuel + 1) start cs = some ([n.withMargin ⟨kept before, kept after⟩], false, "", rest) := by
  rw [items?, h₁]
  simp only [bind, Option.bind_some]
  split
  · rename_i he
    exact absurd (List.cons.inj he).1 (startsValue_ne hd (by decide))
  · simp only [h₂, h₃, Option.bind_some]

theorem items?_more (h₁ : trivia false cs = some (before, d :: cs₁)) (hd : startsValue d = true)
    (h₂ : read (d :: cs₁) = some (n, cs₂)) (h₃ : trivia false cs₂ = some (after, ',' :: rest)) (fuel : Nat)
    (start : Option (List Node × Bool × String × List Char)) :
    items? read (fuel + 1) start cs =
      (items? read fuel (some ([], true, "", [])) rest).map fun r =>
        (n.withMargin ⟨kept before, kept after⟩ :: r.1, r.2) := by
  rw [items?, h₁]
  simp only [bind, Option.bind_some]
  split
  · rename_i he
    exact absurd (List.cons.inj he).1 (startsValue_ne hd (by decide))
  · simp only [h₂, h₃, Option.bind_some]
    cases items? read fuel (some ([], true, "", [])) rest <;> rfl

end

theorem items?_again (hread : read.IsGood) {items : List Node} (hitems : ∀ n ∈ items, n.IsFramed IsGap IsGap read)
    (hd : ∀ n ∈ items, n.misspells = false) {comma : Bool} {tail : String} (htail : IsGap tail.toList)
    (hshape : items ≠ [] → comma = false → tail = "") (rest : List Char) :
    ∀ (fuel : Nat) (c : Bool) (t : String) (r : List Char), items.length < fuel →
      ∃ items' comma' tail',
        items? read fuel (some ([], c, t, r)) (listChars comma tail (nodeTexts items) ++ ']' :: rest) =
          some (items', comma', tail', rest) ∧ nodeCores items' = nodeCores items := by
  induction items with
  | nil =>
    intro fuel c t r hfuel
    obtain ⟨fuel, rfl⟩ := Nat.exists_eq_succ_of_ne_zero (Nat.ne_of_gt hfuel)
    refine ⟨[], c, kept tail.toList, ?_, rfl⟩
    rw [nodeTexts, listChars, items?, htail _ ⟨']', rest, rfl, rfl⟩]
    rfl
  | cons n ns ih =>
    intro fuel c t r hfuel
    obtain ⟨fuel, rfl⟩ := Nat.exists_eq_succ_of_ne_zero (Nat.ne_of_gt (Nat.zero_lt_of_lt hfuel))
    rw [List.forall_mem_cons] at hitems hd
    have item {d : Char} (hs : isSolid d = true) (hb : isBreak d = true) (rest : List Char) :=
      hitems.1.again hread hd.1 hs hb rest
    by_cases hlast : ns = [] ∧ comma = false
    · obtain ⟨before, d, cs₁, n', cs₂, after, h₁, hstart, h₂, h₃, hcore⟩ := item (d := ']') rfl rfl rest
      have htext : listChars comma tail (nodeTexts (n :: ns)) = n.text.toList := by
        rw [hlast.1, hlast.2]
        simp [nodeTexts, listChars]
      refine ⟨[n'.withMargin ⟨kept before, kept after⟩], false, "", ?_, ?_⟩
      · rw [htext, items?_last h₁ hstart h₂ h₃]
      · rw [hlast.1, nodeCores, nodeCores, nodeCores, nodeCores, Node.core_withMargin, hcore]
    · have htext : listChars comma tail (nodeTexts (n :: ns)) ++ ']' :: rest =
          n.text.toList ++ ',' :: (listChars comma tail (nodeTexts ns) ++ ']' :: rest) := by
        have hmore : ((nodeTexts ns).isEmpty && !comma) = false := by
          rcases ns with _ | ⟨n₂, ns⟩
          · cases comma with
            | true => rfl
            | false => exact absurd ⟨rfl, rfl⟩ hlast
          · rfl
        rw [nodeTexts, listChars, hmore]
        simp
      obtain ⟨before, d, cs₁, n', cs₂, after, h₁, hstart, h₂, h₃, hcore⟩ :=
        item (d := ',') rfl rfl (listChars comma tail (nodeTexts ns) ++ ']' :: rest)
      obtain ⟨items', comma', tail', hrest, hcores⟩ := ih hitems.2 hd.2
        (fun hne hcomma => hshape (List.cons_ne_nil _ _) hcomma) fuel true "" [] (Nat.lt_of_succ_lt_succ hfuel)
      refine ⟨n'.withMargin ⟨kept before, kept after⟩ :: items', comma', tail', ?_, ?_⟩
      · rw [htext, items?_more h₁ hstart h₂ h₃, hrest]
        rfl
      · rw [nodeCores, nodeCores, Node.core_withMargin, hcore, hcores]

end

/-! ## Lines with a key -/

/-- The text behind a key in an inline table: blanks, then perhaps a gap. -/
def IsPad (t : List Char) : Prop := ∃ b g, t = b ++ g ∧ (∀ c ∈ b, isBlank c = true) ∧ IsGap g

structure IsLine (pad before after : List Char → Prop) (read : ReadNode) (k : Key) (n : Node) : Prop where
  spelled : k.Spelled
  lead : IsGap k.margin.before.toList
  pad : pad k.margin.after.toList
  value : n.IsFramed before after read

structure Key.IsInner (k : Key) : Prop where
  spelled : k.Spelled
  margin : k.margin = {}

structure Pair.IsRead (pad before after : List Char → Prop) (read : ReadNode) (p : Pair) : Prop where
  fits : p.Fits (IsLine pad before after read) Key.IsInner
  short : p.path.parents.length < depthLimit

section
variable {pad before after : List Char → Prop} {read : ReadNode}

theorem IsLine.respelled {k : Key} {n : Node} (h : IsLine pad before after read k n) :
    IsLine pad before after read k n.respelled :=
  ⟨h.spelled, h.lead, h.pad, h.value.respelled⟩

theorem Pair.IsRead.respelled {p : Pair} (h : p.IsRead pad before after read) :
    p.respelled.IsRead pad before after read :=
  ⟨h.fits.respelled fun _ _ hl => hl.respelled, h.short⟩

end

theorem Key.Spelled.withMargin {k : Key} (h : k.Spelled) (m : Margin) : Key.Spelled { k with margin := m } :=
  ⟨h.again, h.before, h.after⟩

theorem isValue_withMargin {n : Node} (h : n.isValue = true) (m : Margin) : (n.withMargin m).isValue = true := by
  cases n with
  | table form es => cases form with
    | inline => rfl
    | _ => cases h
  | tables elements => cases h
  | _ => rfl

theorem path?_nil (fuel : Nat) (before : String) : path? fuel before [] = none := by
  cases fuel <;> rfl

theorem isKeyEnd_of_isBreak {c : Char} (h : isBreak c = true) (cs : List Char) : IsKeyEnd (c :: cs) := by
  have hkey : startsKey c = false := eq_false_of_isBreak h (by decide)
  simp only [startsKey, Bool.or_eq_false_iff, decide_eq_false_iff_not] at hkey
  exact ⟨c, cs, rfl, hkey.1.1, hkey.1.2, hkey.2⟩

theorem IsPad.isKeyEnd {t : List Char} (h : IsPad t) (cs : List Char) : IsKeyEnd (t ++ '=' :: cs) := by
  obtain ⟨b, g, rfl, hb, hg⟩ := h
  rw [List.append_assoc]
  refine isKeyEnd_append hb ?_
  rcases g with _ | ⟨c, g⟩
  · exact ⟨'=', cs, rfl, by decide, by decide, by decide⟩
  · exact isKeyEnd_of_isBreak (isBreak_of_trivia (hg ('=' :: cs) ⟨'=', cs, rfl, rfl⟩)) _

theorem toList_pathText (ks : List Key) (leaf : Key) :
    (pathText (ks ++ [leaf])).toList =
      leaf.margin.before.toList ++ ((pathText.inner (ks ++ [leaf])).toList ++ leaf.margin.after.toList) := by
  unfold pathText
  simp

theorem Pair.toList_text (ks : List Key) (leaf : Key) (n : Node) (rest : List Char) :
    (Pair.text ⟨⟨ks, leaf⟩, n⟩).toList ++ rest = leaf.margin.before.toList ++
      ((pathText.inner (ks ++ [leaf])).toList ++ (leaf.margin.after.toList ++ '=' :: (n.text.toList ++ rest))) := by
  rw [Pair.text, KeyPath.keys, String.toList_append, String.toList_append, toList_pathText]
  simp

theorem path?_ofLine {ks : List Key} {leaf : Key} (hks : ∀ k ∈ ks ++ [leaf], k.Spelled) {pad : List Char}
    (hpad : IsPad pad) (hshort : ks.length < depthLimit) (cs : List Char) :
    ∃ p g, path? depthLimit "" ((pathText.inner (ks ++ [leaf])).toList ++ (pad ++ '=' :: cs)) =
        some (p, (blanks (pad ++ '=' :: cs)).2) ∧
      p.core = (⟨ks, leaf⟩ : KeyPath).core ∧ trivia false (blanks (pad ++ '=' :: cs)).2 = some (g, '=' :: cs) := by
  obtain ⟨b, g, he, hb, hg⟩ := id hpad
  have hgap : ∃ g', trivia false (blanks (pad ++ '=' :: cs)).2 = some (g', '=' :: cs) := by
    have hsplit : (blanks (pad ++ '=' :: cs)).2 = (blanks (g ++ '=' :: cs)).2 := by
      unfold blanks
      rw [he, List.append_assoc, List.dropWhile_append_of_pos hb]
    rw [hsplit]
    exact trivia_dropBlanks (hg _ ⟨'=', cs, rfl, rfl⟩)
  obtain ⟨g', hg'⟩ := hgap
  have hdot : (blanks (pad ++ '=' :: cs)).2.head? ≠ some '.' := by
    intro hd
    obtain ⟨r, hr⟩ := List.head?_eq_some_iff.mp hd
    rw [hr, trivia_solid ⟨'.', r, rfl, rfl⟩] at hg'
    cases hg'
  obtain ⟨p, hp, hcore⟩ := path?_again hks (hpad.isKeyEnd cs) hdot depthLimit "" hshort
  exact ⟨p, g', hp, hcore, hg'⟩

/-! ## Inline tables -/

section
variable {read : ReadNode}

def Pair.framed (path : KeyPath) (n : Node) (before gap lead after : List Char) : Pair :=
  ⟨⟨path.parents, { path.leaf with margin := ⟨kept before, path.leaf.margin.after ++ kept gap⟩ }⟩,
    n.withMargin ⟨kept lead, kept after⟩⟩

theorem Pair.framed_core (path : KeyPath) (n : Node) (before gap lead after : List Char) :
    (Pair.framed path n before gap lead after).core = ⟨path.core, n.core⟩ := by
  rw [Pair.framed, Pair.core, Node.core_withMargin]
  rfl

theorem pairs?_cases {comma : Bool} {fuel : Nat} {cs : List Char} {r : List Pair × Bool × String × List Char}
    (h : pairs? read comma (fuel + 1) cs = some r) :
    ∃ before cs₁, trivia false cs = some (before, cs₁) ∧
      ((∃ rest, cs₁ = '\x7d' :: rest ∧ r = ([], comma, kept before, rest)) ∨
        ∃ path cs₂ gap cs₃ lead cs₄ n cs₅ after cs₆, path? depthLimit "" cs₁ = some (path, cs₂) ∧
          trivia false cs₂ = some (gap, '=' :: cs₃) ∧ trivia false cs₃ = some (lead, cs₄) ∧ read cs₄ = some (n, cs₅) ∧
          trivia false cs₅ = some (after, cs₆) ∧
          ((∃ rest, cs₆ = '\x7d' :: rest ∧ r = ([.framed path n before gap lead after], false, "", rest)) ∨
            ∃ rest ps r', cs₆ = ',' :: rest ∧ pairs? read true fuel rest = some (ps, r') ∧
              r = (.framed path n before gap lead after :: ps, r'))) := by
  obtain ⟨⟨before, cs₁⟩, hb, h⟩ := Option.bind_eq_some_iff.mp h
  refine ⟨before, cs₁, hb, ?_⟩
  simp only at h
  split at h
  · cases h
    exact .inl ⟨_, rfl, rfl⟩
  · obtain ⟨⟨path, cs₂⟩, hp, h⟩ := Option.bind_eq_some_iff.mp h
    obtain ⟨⟨gap, cs₂'⟩, hg, h⟩ := Option.bind_eq_some_iff.mp h
    simp only at h
    split at h
    · rename_i cs₃
      obtain ⟨⟨lead, cs₄⟩, hl, h⟩ := Option.bind_eq_some_iff.mp h
      obtain ⟨⟨n, cs₅⟩, hn, h⟩ := Option.bind_eq_some_iff.mp h
      obtain ⟨⟨after, cs₆⟩, ha, h⟩ := Option.bind_eq_some_iff.mp h
      refine .inr ⟨path, cs₂, gap, cs₃, lead, cs₄, n, cs₅, after, cs₆, hp, hg, hl, hn, ha, ?_⟩
      simp only at h
      split at h
      · cases h
        exact .inl ⟨_, rfl, rfl⟩
      · obtain ⟨⟨ps, r'⟩, hps, h⟩ := Option.bind_eq_some_iff.mp h
        cases h
        exact .inr ⟨_, ps, r', rfl, hps, rfl⟩
      · cases h
    · cases h

theorem pairs?_isRead (hread : read.IsGood) {fuel : Nat} {c : Bool} {cs : List Char} {ps : List Pair} {comma : Bool}
    {tail : String} {rest : List Char} (h : pairs? read c fuel cs = some (ps, comma, tail, rest)) :
    (∀ p ∈ ps, p.IsRead IsPad IsGap IsGap read) ∧ IsGap tail.toList ∧ (ps = [] → comma = c) ∧
      (ps ≠ [] → comma = false → tail = "") := by
  induction fuel generalizing c cs ps comma tail rest with
  | zero => cases h
  | succ fuel ih =>
    obtain ⟨before, cs₁, hb, ⟨rest', rfl, he⟩ |
      ⟨path, cs₂, gap, cs₃, lead, cs₄, n, cs₅, after, cs₆, hp, hg, hl, hn, ha, hr⟩⟩ := pairs?_cases h
    · cases he
      exact ⟨by simp, isGap_of_trivia hb (List.cons_ne_nil _ _), fun _ => rfl, fun hne => absurd rfl hne⟩
    · have hcs₁ : cs₁ ≠ [] := by
        rintro rfl
        rw [path?_nil] at hp
        cases hp
      have hcs₄ : cs₄ ≠ [] := by
        rintro rfl
        rw [hread.nil] at hn
        cases hn
      obtain ⟨hpath, hlen⟩ := path?_isRead (by simp [IsBlankText]) hp
      have hgap := isGap_of_trivia hg (List.cons_ne_nil _ _)
      have hpad : IsPad (path.leaf.margin.after ++ kept gap).toList :=
        ⟨path.leaf.margin.after.toList, (kept gap).toList, String.toList_append, hpath.after, hgap⟩
      have hleaf : path.leaf.Spelled := hpath.spelled _ (List.mem_append_right _ List.mem_cons_self)
      have hline (hcs₆ : cs₆ ≠ []) : (Pair.framed path n before gap lead after).IsRead IsPad IsGap IsGap read := by
        refine ⟨⟨isValue_withMargin (hread.isRead _ _ _ hn).value _, ?_, fun k hk => ?_⟩, ?_⟩
        · exact ⟨hleaf.withMargin _, isGap_of_trivia hb hcs₁, hpad,
            n, _, rfl, hread.isRead _ _ _ hn, isGap_of_trivia hl hcs₄, isGap_of_trivia ha hcs₆⟩
        · exact ⟨hpath.spelled k (List.mem_append_left _ hk), hpath.bare k hk⟩
        · rw [KeyPath.keys, List.length_append] at hlen
          exact hlen
      rcases hr with ⟨rest', rfl, he⟩ | ⟨rest', ps', r', rfl, hps, he⟩
      · cases he
        exact ⟨List.forall_mem_singleton.mpr (hline (List.cons_ne_nil _ _)), isGap_nil, by simp, fun _ _ => rfl⟩
      · cases he
        obtain ⟨hrest, htail, hc, hshape⟩ := ih hps
        refine ⟨List.forall_mem_cons.mpr ⟨hline (List.cons_ne_nil _ _), hrest⟩, htail, by simp, fun _ hcomma => ?_⟩
        by_cases hne : ps' = []
        · rw [hc hne] at hcomma; cases hcomma
        · exact hshape hne hcomma

theorem Pair.IsRead.again (hread : read.IsGood) {p : Pair} (h : p.IsRead IsPad IsGap IsGap read)
    (hd : p.value.misspells = false) {c : Char} (hs : isSolid c = true) (hc : isBreak c = true) (rest : List Char) :
    ∃ before d cs₁ path cs₂ gap cs₃ lead e cs₄ n cs₅ after,
      trivia false (p.text.toList ++ c :: rest) = some (before, d :: cs₁) ∧
      startsKey d = true ∧ path? depthLimit "" (d :: cs₁) = some (path, cs₂) ∧ path.core = p.path.core ∧
      trivia false cs₂ = some (gap, '=' :: cs₃) ∧ trivia false cs₃ = some (lead, e :: cs₄) ∧
      read (e :: cs₄) = some (n, cs₅) ∧ n.core = p.value.core ∧ trivia false cs₅ = some (after, c :: rest) := by
  obtain ⟨⟨ks, leaf⟩, value⟩ := p
  have hline : IsLine IsPad IsGap IsGap read leaf value := h.fits.line
  have hks : ∀ k ∈ ks ++ [leaf], k.Spelled :=
    List.forall_mem_append.mpr ⟨fun k hk => (h.fits.dotted k hk).spelled, List.forall_mem_singleton.mpr hline.spelled⟩
  obtain ⟨lead, e, cs₄, n, cs₅, after, hl, -, hn, ha, hcore⟩ := hline.value.again hread hd hs hc rest
  obtain ⟨path, gap, hp, hpath, hg⟩ := path?_ofLine hks hline.pad h.short (value.text.toList ++ c :: rest)
  obtain ⟨k, more, hk⟩ : ∃ k more, ks ++ [leaf] = k :: more := List.exists_cons_of_ne_nil (by simp)
  obtain ⟨d, cs₁, hcs, hstart⟩ := head_inner (hks k (by rw [hk]; exact List.mem_cons_self)) more
    (leaf.margin.after.toList ++ '=' :: (value.text.toList ++ c :: rest))
  rw [← hk] at hcs
  rw [hcs] at hp
  refine ⟨leaf.margin.before.toList, d, cs₁, path, _, gap, _, lead, e, cs₄, n, cs₅, after, ?_, hstart, hp, hpath, hg,
    hl, hn, hcore, ha⟩
  rw [Pair.toList_text, hcs]
  exact hline.lead _ ⟨d, cs₁, rfl, isSolid_of_startsKey hstart⟩

section
variable {before after cs cs₁ cs₂ cs₃ cs₄ cs₅ gap lead rest : List Char} {d : Char} {path : KeyPath} {n : Node}

theorem pairs?_last (h₁ : trivia false cs = some (before, d :: cs₁)) (hd : startsKey d = true)
    (h₂ : path? depthLimit "" (d :: cs₁) = some (path, cs₂)) (h₃ : trivia false cs₂ = some (gap, '=' :: cs₃))
    (h₄ : trivia false cs₃ = some (lead, cs₄)) (h₅ : read cs₄ = some (n, cs₅))
    (h₆ : trivia false cs₅ = some (after, '\x7d' :: rest)) (comma : Bool) (fuel : Nat) :
    pairs? read comma (fuel + 1) cs =
      some ([.framed path n before gap lead after], false, "", rest) := by
  rw [pairs?, h₁]
  simp only [bind, Option.bind_some]
  split
  · rename_i he
    exact absurd (List.cons.inj he).1 (startsKey_ne hd (by decide))
  · simp only [h₂, h₃, h₄, h₅, h₆, Option.bind_some]
    rfl

theorem pairs?_more (h₁ : trivia false cs = some (before, d :: cs₁)) (hd : startsKey d = true)
    (h₂ : path? depthLimit "" (d :: cs₁) = some (path, cs₂)) (h₃ : trivia false cs₂ = some (gap, '=' :: cs₃))
    (h₄ : trivia false cs₃ = some (lead, cs₄)) (h₅ : read cs₄ = some (n, cs₅))
    (h₆ : trivia false cs₅ = some (after, ',' :: rest)) (comma : Bool) (fuel : Nat) :
    pairs? read comma (fuel + 1) cs =
      (pairs? read true fuel rest).map fun r => (.framed path n before gap lead after :: r.1, r.2) := by
  rw [pairs?, h₁]
  simp only [bind, Option.bind_some]
  split
  · rename_i he
    exact absurd (List.cons.inj he).1 (startsKey_ne hd (by decide))
  · simp only [h₂, h₃, h₄, h₅, h₆, Option.bind_some]
    cases pairs? read true fuel rest <;> rfl

end

theorem pairs?_again (hread : read.IsGood) {ps : List Pair} (hps : ∀ p ∈ ps, p.IsRead IsPad IsGap IsGap read)
    (hd : ∀ p ∈ ps, p.value.misspells = false) {comma : Bool} {tail : String} (htail : IsGap tail.toList)
    (hshape : ps ≠ [] → comma = false → tail = "") (rest : List Char) :
    ∀ (fuel : Nat) (c : Bool), ps.length < fuel →
      ∃ ps' comma' tail',
        pairs? read c fuel (listChars comma tail (ps.map Pair.text) ++ '\x7d' :: rest) =
          some (ps', comma', tail', rest) ∧
          ps'.map Pair.core = ps.map Pair.core := by
  induction ps with
  | nil =>
    intro fuel c hfuel
    obtain ⟨fuel, rfl⟩ := Nat.exists_eq_succ_of_ne_zero (Nat.ne_of_gt hfuel)
    refine ⟨[], c, kept tail.toList, ?_, rfl⟩
    rw [List.map_nil, listChars, pairs?, htail _ ⟨'\x7d', rest, rfl, rfl⟩]
    rfl
  | cons p ps ih =>
    intro fuel c hfuel
    obtain ⟨fuel, rfl⟩ := Nat.exists_eq_succ_of_ne_zero (Nat.ne_of_gt (Nat.zero_lt_of_lt hfuel))
    rw [List.forall_mem_cons] at hps hd
    have line {d : Char} (hs : isSolid d = true) (hb : isBreak d = true) (rest : List Char) :=
      hps.1.again hread hd.1 hs hb rest
    have hcore {path : KeyPath} {n : Node} (hp : path.core = p.path.core) (hn : n.core = p.value.core)
        (before gap lead after : List Char) : (Pair.framed path n before gap lead after).core = p.core := by
      rw [Pair.framed_core, hp, hn]
      rfl
    by_cases hlast : ps = [] ∧ comma = false
    · obtain ⟨before, d, cs₁, path, cs₂, gap, cs₃, lead, e, cs₄, n, cs₅, after, h₁, hstart, h₂, hpath, h₃, h₄, h₅, hn,
        h₆⟩ :=
        line (by decide : isSolid '\x7d' = true) rfl rest
      have htext : listChars comma tail ((p :: ps).map Pair.text) = p.text.toList := by
        rw [hlast.1, hlast.2]
        simp [listChars]
      refine ⟨[.framed path n before gap lead after], false, "", ?_, ?_⟩
      · rw [htext, pairs?_last h₁ hstart h₂ h₃ h₄ h₅ h₆]
      · rw [hlast.1, List.map_cons, List.map_cons, hcore hpath hn]
    · have htext : listChars comma tail ((p :: ps).map Pair.text) ++ '\x7d' :: rest =
          p.text.toList ++ ',' :: (listChars comma tail (ps.map Pair.text) ++ '\x7d' :: rest) := by
        have hmore : ((ps.map Pair.text).isEmpty && !comma) = false := by
          rcases ps with _ | ⟨q, ps⟩
          · cases comma with
            | true => rfl
            | false => exact absurd ⟨rfl, rfl⟩ hlast
          · rfl
        rw [List.map_cons, listChars, hmore]
        simp
      obtain ⟨before, d, cs₁, path, cs₂, gap, cs₃, lead, e, cs₄, n, cs₅, after, h₁, hstart, h₂, hpath, h₃, h₄, h₅, hn,
        h₆⟩ :=
        line (by decide : isSolid ',' = true) rfl (listChars comma tail (ps.map Pair.text) ++ '\x7d' :: rest)
      obtain ⟨ps', comma', tail', hrest, hcores⟩ := ih hps.2 hd.2
        (fun hne hcomma => hshape (List.cons_ne_nil _ _) hcomma) fuel true (Nat.lt_of_succ_lt_succ hfuel)
      refine ⟨.framed path n before gap lead after :: ps', comma', tail', ?_, ?_⟩
      · rw [htext, pairs?_more h₁ hstart h₂ h₃ h₄ h₅ h₆, hrest]
        rfl
      · rw [List.map_cons, List.map_cons, hcore hpath hn, hcores]

end

/-! ## Values of any depth -/

theorem scalar?_isGood : ReadNode.IsGood scalar? where
  nil := by decide
  starts c cs r h := by
    obtain ⟨n, rest⟩ := r
    rw [startsValue, isTokenChar_of_scalar? h]
    rfl
  isRead _ _ _ h := scalar?_isRead h

theorem node?_of_isTokenChar {c : Char} (h : isTokenChar c = true) (depth : Nat) (cs : List Char) :
    node? depth (c :: cs) = scalar? (c :: cs) := by
  rcases depth with _ | depth
  · rfl
  · rw [node?]
    · rintro rest he
      rw [(List.cons.inj he).1] at h
      cases h
    · rintro rest he
      rw [(List.cons.inj he).1] at h
      cases h

theorem Node.ReadsAgain.ofScalar {n : Node} (h : n.ReadsAgain scalar?) (depth : Nat) : n.ReadsAgain (node? depth) := by
  intro rest hr
  obtain ⟨n', hn, hcore⟩ := h rest hr
  refine ⟨n', ?_, hcore⟩
  obtain ⟨c, r, hb, -⟩ := scalar?_isGood.body_starts h
  rw [hb, List.cons_append] at hn ⊢
  rw [node?_of_isTokenChar (isTokenChar_of_scalar? hn)]
  exact hn

theorem Node.IsRead.ofScalar {n : Node} (h : n.IsRead scalar?) (depth : Nat) : n.IsRead (node? depth) :=
  ⟨h.value, h.plain, h.spelled, h.reads.ofScalar depth⟩

theorem node?_array {depth : Nat} {cs rest : List Char} {items : List Node} {comma : Bool} {tail : String}
    (h : items? (node? depth) (cs.length + 1) (some ([], false, "", [])) cs = some (items, comma, tail, rest)) :
    node? (depth + 1) ('[' :: cs) = some (.array items comma tail {}, rest) := by
  rw [node?, h]
  rfl

theorem node?_inline {depth : Nat} {cs rest : List Char} {ps : List Pair} {es : Entries} {comma : Bool} {tail : String}
    (h : pairs? (node? depth) false (cs.length + 1) cs = some (ps, comma, tail, rest))
    (hes : addPairs [] ps = some es) :
    node? (depth + 1) ('\x7b' :: cs) = some (.table (.inline comma tail {}) es, rest) := by
  rw [node?, h]
  simp only [bind, Option.bind_some, hes]

theorem misspells_of_ownLines : ∀ {es : List (Key × Node)}, entriesMisspell es = false →
    ∀ p ∈ ownLines es, p.value.misspells = false
  | [], _, p, hp => nomatch hp
  | (k, n) :: es, h, p, hp => by
    rw [entriesMisspell, Bool.or_eq_false_iff] at h
    rw [ownLines, List.mem_append] at hp
    rcases hp with hp | hp
    · by_cases hd : ∃ sub, n = .table .dotted sub
      · obtain ⟨sub, rfl⟩ := hd
        rw [Node.ownLines] at hp
        obtain ⟨q, hq, rfl⟩ := List.mem_map.mp hp
        rw [Node.misspells] at h
        exact misspells_of_ownLines h.1 q hq
      · rw [Node.ownLines] at hp
        · split at hp
          · rw [List.mem_singleton.mp hp]
            exact h.1
          · cases hp
        · exact fun sub he => hd ⟨sub, he⟩
    · exact misspells_of_ownLines h.2 p hp

theorem nodeTexts_eq (ns : List Node) : nodeTexts ns = ns.map Node.text := by
  induction ns with
  | nil => rfl
  | cons n ns ih => rw [nodeTexts, ih, List.map_cons]

section
variable {depth : Nat} {comma : Bool} {tail : String}

theorem Pair.isRead_of_addPairs {pad before after : List Char → Prop} {read : ReadNode} {ps : List Pair} {es : Entries}
    (hps : ∀ p ∈ ps, p.IsRead pad before after read) (hes : addPairs [] ps = some es) :
    ∀ p ∈ ownLines es, p.IsRead pad before after read := by
  obtain ⟨hown, hperm⟩ := own_of_addPairs (fun p hp => (hps p hp).fits) .nil hes
  rw [ownLines, List.map_nil, List.nil_append] at hperm
  intro p hp
  refine ⟨hown.fits p hp, ?_⟩
  obtain ⟨q, hq, hqp⟩ := List.mem_map.mp (hperm.mem_iff.mp (List.mem_map_of_mem hp))
  have hlen := congrArg (fun p : Pair => p.path.parents.length) hqp
  simp only [Pair.core, KeyPath.core, List.length_map] at hlen
  rw [← hlen]
  exact (hps q hq).short

theorem array_again (hread : (node? depth).IsGood) {items : List Node}
    (hitems : ∀ n ∈ items, n.IsFramed IsGap IsGap (node? depth)) (htail : IsGap tail.toList)
    (hempty : items = [] → comma = false) (hshape : items ≠ [] → comma = false → tail = "")
    (hd : nodesMisspell items = false) : (Node.array items comma tail {}).ReadsAgain (node? (depth + 1)) := by
  intro rest hr
  have hbody : (Node.array items comma tail {}).body ++ rest =
      '[' :: (listChars comma tail (nodeTexts items) ++ ']' :: rest) := by
    rw [← toList_intercalate_list]
    · simp [Node.body, Node.withMargin, Node.text]
    · rw [nodeTexts_eq, List.map_eq_nil_iff]
      exact hempty
    · rw [nodeTexts_eq, ne_eq, List.map_eq_nil_iff]
      exact hshape
  have hfuel : items.length < (listChars comma tail (nodeTexts items) ++ ']' :: rest).length + 1 := by
    have hlen := length_le_listChars comma tail (nodeTexts items)
    rw [nodeTexts_eq, List.length_map] at hlen
    rw [nodeTexts_eq, List.length_append, List.length_cons]
    omega
  obtain ⟨items', comma', tail', hitems', hcores⟩ :=
    items?_again hread hitems (nodesMisspell_eq_false.mp hd) htail hshape rest
    _ false "" [] hfuel
  refine ⟨.array items' comma' tail' {}, ?_, ?_⟩
  · rw [hbody]
    exact node?_array hitems'
  · rw [Node.core, Node.core, hcores]

theorem inline_again (hread : (node? depth).IsGood) {ps : List Pair} {es : Entries}
    (hps : ∀ p ∈ ps, p.IsRead IsPad IsGap IsGap (node? depth)) (hes : addPairs [] ps = some es)
    (htail : IsGap tail.toList) (hempty : ps = [] → comma = false) (hshape : ps ≠ [] → comma = false → tail = "")
    (hd : entriesMisspell es = false) : (Node.table (.inline comma tail {}) es).ReadsAgain (node? (depth + 1)) := by
  intro rest hr
  obtain ⟨hown, hperm⟩ := own_of_addPairs (fun p hp => (hps p hp).fits) .nil hes
  rw [ownLines, List.map_nil, List.nil_append] at hperm
  have hlines := Pair.isRead_of_addPairs hps hes
  have hnil : ownLines es = [] ↔ ps = [] := by
    rw [← List.length_eq_zero_iff, ← List.length_eq_zero_iff]
    have hlen := hperm.length_eq
    rw [List.length_map, List.length_map] at hlen
    rw [hlen]
  have htexts : pairTexts [] es = (ownLines es).map Pair.text := pairTexts_eq [] es
  have hbody : (Node.table (.inline comma tail {}) es).body ++ rest =
      '\x7b' :: (listChars comma tail ((ownLines es).map Pair.text) ++ '\x7d' :: rest) := by
    rw [← toList_intercalate_list, ← htexts]
    · simp [Node.body, Node.withMargin, Node.text]
    · rw [List.map_eq_nil_iff, hnil]
      exact hempty
    · rw [ne_eq, List.map_eq_nil_iff, hnil]
      exact hshape
  have hfuel : (ownLines es).length <
      (listChars comma tail ((ownLines es).map Pair.text) ++ '\x7d' :: rest).length + 1 := by
    have hlen := length_le_listChars comma tail ((ownLines es).map Pair.text)
    rw [List.length_map] at hlen
    rw [List.length_append, List.length_cons]
    omega
  obtain ⟨ps', comma', tail', hps', hcores⟩ := pairs?_again hread hlines (misspells_of_ownLines hd) htail
    (fun hne => hshape (fun he => hne (hnil.mpr he))) rest _ false hfuel
  obtain ⟨es', hes', hcore⟩ := addPairs_of_cores hown hcores
  refine ⟨.table (.inline comma' tail' {}) es', ?_, ?_⟩
  · rw [hbody]
    exact node?_inline hps' hes'
  · rw [Node.core, Node.core, hcore]
    rfl

theorem array_isRead (hread : (node? depth).IsGood) {items : List Node}
    (hitems : ∀ n ∈ items, n.IsFramed IsGap IsGap (node? depth)) (htail : IsGap tail.toList)
    (hempty : items = [] → comma = false) (hshape : items ≠ [] → comma = false → tail = "") :
    (Node.array items comma tail {}).IsRead (node? (depth + 1)) := by
  have hspelled : nodesMisspell (nodesRespelled items) = false := by
    rw [nodesMisspell_eq_false, nodesRespelled_eq]
    exact List.forall_mem_map.mpr fun n hn => (hitems n hn).spelled
  have hnil : nodesRespelled items = [] ↔ items = [] := by rw [nodesRespelled_eq, List.map_eq_nil_iff]
  refine ⟨rfl, rfl, by rw [Node.respelled, Node.misspells, hspelled], ?_⟩
  rw [Node.respelled]
  refine array_again hread ?_ htail (fun h => hempty (hnil.mp h)) (fun h => hshape fun he => h (hnil.mpr he)) hspelled
  rw [nodesRespelled_eq]
  exact List.forall_mem_map.mpr fun n hn => (hitems n hn).respelled

theorem inline_isRead (hread : (node? depth).IsGood) {ps : List Pair} {es : Entries}
    (hps : ∀ p ∈ ps, p.IsRead IsPad IsGap IsGap (node? depth)) (hes : addPairs [] ps = some es)
    (htail : IsGap tail.toList) (hempty : ps = [] → comma = false) (hshape : ps ≠ [] → comma = false → tail = "") :
    (Node.table (.inline comma tail {}) es).IsRead (node? (depth + 1)) := by
  have hown := (own_of_addPairs (fun p hp => (hps p hp).fits) .nil hes).1
  have hspelled : entriesMisspell (entriesRespelled es) = false := by
    rw [entriesMisspell_eq_false, entriesRespelled_eq]
    exact List.forall_mem_map.mpr fun e he => (hown.entries e he).spelled fun _ _ hl => hl.value.spelled
  have hes' : addPairs [] (ps.map Pair.respelled) = some (entriesRespelled es) := by
    have h := addPairs_respelled ps []
    rw [hes] at h
    exact h
  have hnil : ps.map Pair.respelled = [] ↔ ps = [] := List.map_eq_nil_iff
  refine ⟨rfl, rfl, by rw [Node.respelled, Node.misspells, hspelled], ?_⟩
  rw [Node.respelled]
  exact inline_again hread (List.forall_mem_map.mpr fun p hp => (hps p hp).respelled) hes' htail
    (fun h => hempty (hnil.mp h)) (fun h => hshape fun he => h (hnil.mpr he)) hspelled

end

/-- **Values of any depth are read again.** -/
theorem node?_isGood (depth : Nat) : (node? depth).IsGood := by
  induction depth with
  | zero => exact scalar?_isGood
  | succ depth ih =>
    refine ⟨scalar?_isGood.nil, fun c cs r h => ?_, fun cs n rest h => ?_⟩
    · unfold node? at h
      split at h
      · rename_i he; rw [(List.cons.inj he).1]; rfl
      · rename_i he; rw [(List.cons.inj he).1]; rfl
      · exact scalar?_isGood.starts c cs r h
    · unfold node? at h
      split at h
      · obtain ⟨⟨items, comma, tail, rest'⟩, hitems, h⟩ := Option.bind_eq_some_iff.mp h
        cases h
        obtain ⟨hall, htail, hempty, hshape⟩ := items?_isRead ih hitems
        exact array_isRead ih hall htail hempty hshape
      · obtain ⟨⟨ps, comma, tail, rest'⟩, hps, h⟩ := Option.bind_eq_some_iff.mp h
        obtain ⟨es, hes, h⟩ := Option.bind_eq_some_iff.mp h
        cases h
        obtain ⟨hall, htail, hempty, hshape⟩ := pairs?_isRead ih hps
        exact inline_isRead ih hall hes htail hempty hshape
      · exact (scalar?_isRead h).ofScalar (depth + 1)

end Broadcast.Toml
