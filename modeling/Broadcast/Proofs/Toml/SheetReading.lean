import Broadcast.Proofs.Toml.Sheet

/-!
# Sheets are read back

Reading the text of a sheet finds its headers and values line by line and
builds the same tables from them; they only get the numbers and the lines before
their headers that the text gives them.
-/

namespace Broadcast.Toml

/-! ## The text between lines -/

theorem trivia_newline (rest : List Char) : trivia false ('\n' :: rest) = (trivia false rest).map (keep '\n') := rfl

theorem trivia_plain {c : Char} (h : isPlain c = true) (rest : List Char) :
    trivia true (c :: rest) = (trivia true rest).map (keep c) := by
  have h₁ : c ≠ '\n' := by rintro rfl; exact absurd h (by decide)
  have h₂ : c ≠ '\r' := by rintro rfl; exact absurd h (by decide)
  rw [trivia, if_neg h₁]
  simp [h₂, h]

theorem trivia_comment {text : List Char} (h : ∀ c ∈ text, isPlain c = true) (rest : List Char) :
    trivia true (text ++ '\n' :: rest) = (trivia false rest).map fun r => (text ++ '\n' :: r.1, r.2) := by
  induction text with
  | nil => rfl
  | cons c text ih =>
    rw [List.cons_append, trivia_plain (h c List.mem_cons_self), ih (fun d hd => h d (List.mem_cons_of_mem c hd)),
      Option.map_map]
    rfl

theorem trivia_spacing {cs : List Char} (h : Spacing cs) (rest : List Char) :
    trivia false (cs ++ rest) = (trivia false rest).map fun r => (cs ++ r.1, r.2) := by
  induction h with
  | nil => simp
  | blank _ ih => rw [List.cons_append, trivia_newline, ih, Option.map_map]; rfl
  | @comment text cs ht _ ih =>
    have hc : trivia false ('#' :: (text ++ '\n' :: (cs ++ rest))) =
        (trivia true (text ++ '\n' :: (cs ++ rest))).map (keep '#') := rfl
    rw [List.cons_append, List.append_assoc, List.cons_append, hc, trivia_comment ht, ih, Option.map_map,
      Option.map_map]
    simp [Function.comp_def, keep]

theorem trivia_stop {c : Char} (h₁ : c ≠ '\n') (h₂ : c ≠ '\r') (h₃ : c ≠ '#') (h₄ : isBlank c = false)
    (rest : List Char) : trivia false (c :: rest) = some ([], c :: rest) := by
  rw [trivia, if_neg h₁]
  simp [h₂, h₃, h₄]

theorem return_notMem_spacing {cs : List Char} (h : Spacing cs) : '\r' ∉ cs := by
  induction h with
  | nil => exact List.not_mem_nil
  | blank _ ih => simp [ih]
  | comment ht _ ih =>
    have hr : '\r' ∉ _ := fun hm => absurd (ht '\r' hm) (by decide)
    simp [ih, hr]

theorem kept_of_notMem {cs : List Char} (h : '\r' ∉ cs) : kept cs = String.ofList cs := by
  unfold kept
  congr 1
  refine List.filter_eq_self.mpr fun c hc => ?_
  have hr : c ≠ '\r' := fun he => h (he ▸ hc)
  simpa using hr

theorem remark_newline (rest : List Char) : remark false ('\n' :: rest) = some ([], rest) := rfl

/-! ## Keys -/

theorem ne_of_isBare {c d : Char} (h : isBare c = true) (hd : isBare d = false) : c ≠ d := by
  rintro rfl
  rw [h] at hd; cases hd

theorem isBlank_of_isBare {c : Char} (h : isBare c = true) : isBlank c = false := by
  have h₁ := ne_of_isBare h (d := ' ') (by decide)
  have h₂ := ne_of_isBare h (d := '\t') (by decide)
  simp [isBlank, h₁, h₂]

theorem trivia_bare {c : Char} (h : isBare c = true) (rest : List Char) :
    trivia false (c :: rest) = some ([], c :: rest) :=
  trivia_stop (ne_of_isBare h (by decide)) (ne_of_isBare h (by decide)) (ne_of_isBare h (by decide))
    (isBlank_of_isBare h) rest

theorem lineString?_bare {c : Char} (h : isBare c = true) (rest : List Char) : lineString? (c :: rest) = none := by
  have h₁ := ne_of_isBare h (d := '"') (by decide)
  have h₂ := ne_of_isBare h (d := '\'') (by decide)
  unfold lineString?
  split
  · rename_i he; exact absurd (List.cons.inj he).1 h₁
  · rename_i he; exact absurd (List.cons.inj he).1 h₂
  · rfl

theorem key?_bare {name : String} (h : IsBareName name) {c : Char} (hc : isBare c = false) (rest : List Char) :
    key? (name.toList ++ c :: rest) = some (Key.bare name, c :: rest) := by
  obtain ⟨hne, hb⟩ := h
  rw [List.all_eq_true] at hb
  have ht : (name.toList ++ c :: rest).takeWhile isBare = name.toList := by
    rw [List.takeWhile_append_of_pos hb, List.takeWhile_cons_of_neg (by simp [hc]), List.append_nil]
  have hd : (name.toList ++ c :: rest).dropWhile isBare = c :: rest := by
    rw [List.dropWhile_append_of_pos hb, List.dropWhile_cons_of_neg (by simp [hc])]
  have hs : lineString? (name.toList ++ c :: rest) = none := by
    obtain ⟨d, ds, hds⟩ := List.exists_cons_of_ne_nil hne
    rw [hds] at hb ⊢
    exact lineString?_bare (hb d List.mem_cons_self) _
  have he : name.toList.isEmpty = false := by simpa using hne
  unfold key?
  simp only [hs, ht, hd, he, String.ofList_toList]
  rfl

theorem blanks_append {b : List Char} (hb : ∀ c ∈ b, isBlank c = true) {c : Char} (hc : isBlank c = false)
    (rest : List Char) : blanks (b ++ c :: rest) = (b, c :: rest) := by
  unfold blanks
  rw [List.takeWhile_append_of_pos hb, List.dropWhile_append_of_pos hb, List.takeWhile_cons_of_neg (by simp [hc]),
    List.dropWhile_cons_of_neg (by simp [hc]), List.append_nil]

theorem blanks_nil {c : Char} (hc : isBlank c = false) (rest : List Char) : blanks (c :: rest) = ([], c :: rest) :=
  blanks_append (b := []) (by simp) hc rest

theorem path?_bare {name : String} (h : IsBareName name) {cs b : List Char} {c : Char} {rest : List Char}
    (hcs : cs = b ++ c :: rest) (hbare : ∀ d ∈ cs.head?, isBare d = false)
    (hb : ∀ c ∈ b, isBlank c = true) (hc : isBlank c = false) (hdot : c ≠ '.') (fuel : Nat) :
    path? (fuel + 1) "" (name.toList ++ cs) =
      some (⟨[], { Key.bare name with margin := ⟨"", String.ofList b⟩ }⟩, c :: rest) := by
  obtain ⟨d, ds, hds⟩ : ∃ d ds, cs = d :: ds := by
    rw [hcs]; exact List.exists_cons_of_ne_nil (List.append_ne_nil_of_right_ne_nil _ (List.cons_ne_nil _ _))
  have hk : key? (name.toList ++ cs) = some (Key.bare name, cs) := by
    rw [hds] at hbare ⊢
    exact key?_bare h (hbare d rfl) ds
  unfold path?
  simp only [hk, bind, Option.bind_some]
  rw [hcs, blanks_append hb hc]
  simp only
  split
  · rename_i he; exact absurd (List.cons.inj he).1 hdot
  · rfl

/-! ## Lines -/

def headerOf (lead : String) (p : Part) : Line := .header false ⟨[], Key.bare p.name⟩ ⟨lead, ""⟩

def pairOf (q : String × Scalar) : Pair := ⟨⟨[], (newPair q.1 q.2).1⟩, (newPair q.1 q.2).2⟩

theorem headerLine?_bare {name : String} (h : IsBareName name) (lead : String) (rest : List Char) :
    headerLine? lead (name.toList ++ ']' :: '\n' :: rest) =
      some (.header false ⟨[], Key.bare name⟩ ⟨lead, ""⟩, rest) := by
  have hp : path? depthLimit "" (name.toList ++ ']' :: '\n' :: rest) =
      some (⟨[], Key.bare name⟩, ']' :: '\n' :: rest) :=
    path?_bare h (b := []) rfl (by rintro d ⟨⟩; decide) (by simp) (by decide) (by decide) 79
  obtain ⟨hne, hb⟩ := h
  rw [List.all_eq_true] at hb
  obtain ⟨d, ds, hds⟩ := List.exists_cons_of_ne_nil hne
  have hd : isBare d = true := hb d (hds ▸ List.mem_cons_self)
  have ha : ((name.toList ++ ']' :: '\n' :: rest).head? = some '[') = False := by
    rw [hds]
    simpa using ne_of_isBare hd (d := '[') (by decide)
  have hbl : blanks (name.toList ++ ']' :: '\n' :: rest) = ([], name.toList ++ ']' :: '\n' :: rest) := by
    rw [hds]
    exact blanks_nil (isBlank_of_isBare hd) _
  unfold headerLine?
  simp only [ha, decide_false, ite_false, hbl, hp, bind, Option.bind_some]
  rfl

theorem pairLine?_pair {q : String × Scalar} (hk : IsBareName q.1) (hv : q.2.IsPlain) (rest : List Char) :
    pairLine? "" (pairChars q ++ rest) = some (.pair (pairOf q), rest) := by
  obtain ⟨c, cs, hcs, hc, -⟩ := written_eq_cons hv
  have hp : path? depthLimit "" (q.1.toList ++ ' ' :: '=' :: ' ' :: (q.2.written.toList ++ '\n' :: rest)) =
      some (⟨[], { Key.bare q.1 with margin := ⟨"", " "⟩ }⟩, '=' :: ' ' :: (q.2.written.toList ++ '\n' :: rest)) :=
    path?_bare hk (b := [' ']) rfl (by rintro d ⟨⟩; decide) (by simp; decide) (by decide) (by decide) 79
  have hb : blanks (' ' :: (q.2.written.toList ++ '\n' :: rest)) = ([' '], q.2.written.toList ++ '\n' :: rest) := by
    rw [hcs]
    exact blanks_append (b := [' ']) (by simp; decide) hc _
  have he : pairChars q ++ rest = q.1.toList ++ ' ' :: '=' :: ' ' :: (q.2.written.toList ++ '\n' :: rest) := by
    simp [pairChars]
  have hn : node? depthLimit (q.2.written.toList ++ '\n' :: rest) = some (.scalar q.2 q.2.written {}, '\n' :: rest) :=
    node?_written hv 79 rest
  rw [he]
  unfold pairLine?
  simp only [hp, bind, Option.bind_some, expect, ite_true, hb, hn, remark_newline]
  rfl

theorem lines?_header {lead name : String} (hl : Spacing lead.toList) (hn : IsBareName name) (fuel : Nat)
    (rest : List Char) :
    lines? (fuel + 1) (lead.toList ++ '[' :: (name.toList ++ ']' :: '\n' :: rest)) =
      (lines? fuel rest).map fun r => (.header false ⟨[], Key.bare name⟩ ⟨lead, ""⟩ :: r.1, r.2) := by
  have ht : trivia false ('[' :: (name.toList ++ ']' :: '\n' :: rest)) =
      some ([], '[' :: (name.toList ++ ']' :: '\n' :: rest)) := rfl
  have hk : kept lead.toList = lead := by
    rw [kept_of_notMem (return_notMem_spacing hl), String.ofList_toList]
  rw [lines?, trivia_spacing hl, ht]
  simp only [bind, Option.map_some, Option.bind_some, List.append_nil, hk, headerLine?_bare hn]
  cases lines? fuel rest <;> rfl

theorem lines?_pair {q : String × Scalar} (hk : IsBareName q.1) (hv : q.2.IsPlain) (fuel : Nat) (rest : List Char) :
    lines? (fuel + 1) (pairChars q ++ rest) = (lines? fuel rest).map fun r => (.pair (pairOf q) :: r.1, r.2) := by
  have hline := pairLine?_pair hk hv rest
  obtain ⟨c, cs, hcs⟩ : ∃ c cs, pairChars q ++ rest = c :: cs ∧ isBare c = true := by
    obtain ⟨hne, hb⟩ := hk
    rw [List.all_eq_true] at hb
    obtain ⟨c, cs, hcs⟩ := List.exists_cons_of_ne_nil hne
    exact ⟨c, _, by unfold pairChars; rw [hcs]; rfl, hb c (hcs ▸ List.mem_cons_self)⟩
  obtain ⟨he, hc⟩ := hcs
  rw [he] at hline ⊢
  have hkn : kept [] = "" := rfl
  rw [lines?]
  simp only [trivia_bare hc, bind, Option.bind_some, hkn]
  split
  · rename_i h; cases h
  · rename_i h; exact absurd (List.cons.inj h).1 (ne_of_isBare hc (by decide))
  · rw [hline]
    simp only [Option.bind_some]
    cases lines? fuel rest <;> rfl

theorem lines?_pairs {qs : List (String × Scalar)} (hk : ∀ q ∈ qs, IsBareName q.1) (hv : ∀ q ∈ qs, q.2.IsPlain)
    (fuel : Nat) (rest : List Char) :
    lines? (fuel + qs.length) (qs.flatMap pairChars ++ rest) =
      (lines? fuel rest).map fun r => (qs.map (fun q => .pair (pairOf q)) ++ r.1, r.2) := by
  induction qs with
  | nil => simp
  | cons q qs ih =>
    have ih := ih (fun p hp => hk p (List.mem_cons_of_mem q hp)) (fun p hp => hv p (List.mem_cons_of_mem q hp))
    rw [List.length_cons, ← Nat.add_assoc, List.flatMap_cons, List.append_assoc,
      lines?_pair (hk q List.mem_cons_self) (hv q List.mem_cons_self), ih, Option.map_map]
    rfl

def linesOf (first : Bool) : List Part → List Line
  | [] => []
  | p :: ps => headerOf (p.lead first) p :: (p.pairs.map (fun q => .pair (pairOf q)) ++ linesOf false ps)

theorem lines?_parts {ps : List Part} (h : ∀ p ∈ ps, p.WellFormed) {tail : String} (ht : Spacing tail.toList) :
    ∀ first fuel, (linesOf first ps).length ≤ fuel →
      lines? (fuel + 1) (partsChars first ps ++ tail.toList) = some (linesOf first ps, tail) := by
  induction ps with
  | nil =>
    intro first fuel _
    have he : trivia false tail.toList = some (tail.toList, []) := by
      have := trivia_spacing ht []
      rw [List.append_nil] at this
      rw [this]
      simp [trivia]
    have hk : kept tail.toList = tail := by rw [kept_of_notMem (return_notMem_spacing ht), String.ofList_toList]
    rw [partsChars, List.nil_append, lines?, he]
    simp only [bind, Option.bind_some, hk]
    rfl
  | cons p ps ih =>
    intro first fuel hf
    have hp := h p List.mem_cons_self
    have ih := ih (fun q hq => h q (List.mem_cons_of_mem p hq)) false
    rw [linesOf, List.length_cons, List.length_append, List.length_map] at hf
    obtain ⟨n, rfl⟩ : ∃ n, fuel = n + 1 + p.pairs.length := ⟨fuel - (p.pairs.length + 1), by omega⟩
    have he : partsChars first (p :: ps) ++ tail.toList =
        (p.lead first).toList ++ '[' :: (p.name.toList ++ ']' :: '\n' ::
        (p.pairs.flatMap pairChars ++ (partsChars false ps ++ tail.toList))) := by
      simp [partsChars, partChars]
    rw [he, lines?_header (hp.spacing_lead first) hp.name, lines?_pairs hp.keys hp.plain, ih n (by omega)]
    rfl

/-! ## Building the tables -/

theorem contains_newEntries (name : String) (qs : List (String × Scalar)) :
    Entries.contains name (newEntries qs) = true ↔ name ∈ qs.map (·.1) :=
  contains_map (fun _ => rfl) name qs

theorem addPairs_pairs (qs : List (String × Scalar)) : ∀ before : List (String × Scalar),
    ((before ++ qs).map (·.1)).Nodup →
      addPairs (newEntries before) (qs.map pairOf) = some (newEntries (before ++ qs)) := by
  induction qs with
  | nil => intro before _; rw [List.append_nil]; rfl
  | cons q qs ih =>
    intro before hd
    have hnew : ¬ Entries.contains (newPair q.1 q.2).1.name (newEntries before) = true := by
      intro hc
      have hm : q.1 ∈ before.map (·.1) := (contains_newEntries q.1 before).mp hc
      rw [List.map_append, List.nodup_append] at hd
      exact hd.2.2 _ hm _ List.mem_cons_self rfl
    have hadd : Entries.addPair (pairOf q).path.leaf (pairOf q).value (pairOf q).path.parents (newEntries before) =
        some (newEntries (before ++ [q])) := by
      have hs : newEntries before ++ [newPair q.1 q.2] = newEntries (before ++ [q]) := by
        unfold newEntries; rw [List.map_append]; rfl
      rw [← hs]
      exact if_neg hnew
    have hap : before ++ q :: qs = before ++ [q] ++ qs := by simp
    rw [hap] at hd ⊢
    rw [List.map_cons, addPairs, hadd]
    exact ih (before ++ [q]) hd

theorem headed_pairs (qs : List (String × Scalar)) (ls : List Line) :
    headed (qs.map (fun q => .pair (pairOf q)) ++ ls) = (qs.map pairOf ++ (headed ls).1, (headed ls).2) := by
  induction qs with
  | nil => rfl
  | cons q qs ih => rw [List.map_cons, List.cons_append, headed, ih]; rfl

def headedOf (first : Bool) : List Part → List Headed
  | [] => []
  | p :: ps => ⟨false, ⟨[], Key.bare p.name⟩, ⟨p.lead first, ""⟩, p.pairs.map pairOf⟩ :: headedOf false ps

theorem headed_linesOf (ps : List Part) : ∀ first, headed (linesOf first ps) = ([], headedOf first ps) := by
  induction ps with
  | nil => intro first; rfl
  | cons p ps ih =>
    intro first
    rw [linesOf, headerOf, headed, headed_pairs, ih false, List.append_nil]
    rfl

theorem find?_parts_eq_none {name : String} {ps : List Part} (h : name ∉ ps.map Part.name) :
    Entries.find? name (ps.map Part.entry) = none := by
  cases hf : Entries.find? name (ps.map Part.entry) with
  | none => rfl
  | some n =>
    have hc : Entries.contains name (ps.map Part.entry) = true := by unfold Entries.contains; rw [hf]; rfl
    exact absurd ((contains_parts name ps).mp hc) h

theorem addAllHeaded_parts (ps : List Part) (hd : ∀ p ∈ ps, (p.pairs.map (·.1)).Nodup) : ∀ before place first,
    ((before ++ ps).map Part.name).Nodup →
    addAllHeaded place (before.map Part.entry) (headedOf first ps) =
      some ((before ++ settled place first ps).map Part.entry) := by
  -- `before` are the tables that stand in the document already, and no later one has a name of theirs
  induction ps with
  | nil => intro before place first _; simp [headedOf, addAllHeaded, settled]
  | cons p ps ih =>
    intro before place first hn
    let q : Part := { p with origin := some (place, p.lead first) }
    have hnew : p.name ∉ before.map Part.name := by
      rw [List.map_append, List.nodup_append] at hn
      exact fun hm => hn.2.2 _ hm _ List.mem_cons_self rfl
    have hpairs : addPairs [] (p.pairs.map pairOf) = some (newEntries p.pairs) :=
      addPairs_pairs p.pairs [] (hd p List.mem_cons_self)
    have hadd : Entries.addHeaded ⟨false, ⟨[], Key.bare p.name⟩, ⟨p.lead first, ""⟩, p.pairs.map pairOf⟩ place []
        (before.map Part.entry) = some ((before ++ [q]).map Part.entry) := by
      have hf : Entries.find? (Key.bare p.name).name (before.map Part.entry) = none := find?_parts_eq_none hnew
      rw [List.map_append]
      simp only [Entries.addHeaded, Entries.openTable, Bool.false_eq_true, ite_false, hf, hpairs, Option.map_some]
      rfl
    have hq : (before ++ [q] ++ ps).map Part.name = (before ++ p :: ps).map Part.name := by simp [q]
    rw [headedOf, addAllHeaded, hadd]
    show addAllHeaded (place + 1) _ _ = _
    rw [ih (fun r hr => hd r (List.mem_cons_of_mem p hr)) (before ++ [q]) (place + 1) false (hq ▸ hn), settled]
    simp [q]

/-! ## Reading the text -/

theorem length_linesOf_le (ps : List Part) : ∀ first, (linesOf first ps).length ≤ (partsChars first ps).length := by
  -- every line takes a character, so a text is fuel enough for its lines
  have hpairs : ∀ qs : List (String × Scalar), qs.length ≤ (qs.flatMap pairChars).length := by
    intro qs
    induction qs with
    | nil => exact Nat.le_refl 0
    | cons q qs ih =>
      have hq : 1 ≤ (pairChars q).length := by unfold pairChars; rw [List.length_append, List.length_cons]; omega
      rw [List.flatMap_cons, List.length_append, List.length_cons]
      omega
  induction ps with
  | nil => intro first; exact Nat.le_refl 0
  | cons p ps ih =>
    intro first
    have h₁ := ih false
    have h₂ := hpairs p.pairs
    simp only [linesOf, partsChars, partChars, List.length_cons, List.length_append, List.length_map]
    omega

theorem head?_spacing {cs : List Char} (h : Spacing cs) {rest : List Char} (hr : rest.head? ≠ some '\ufeff') :
    (cs ++ rest).head? ≠ some '\ufeff' := by
  cases h with
  | nil => exact hr
  | blank _ => simp
  | comment _ _ => simp

theorem skipMark_of_head {cs : List Char} (h : cs.head? ≠ some '\ufeff') : skipMark cs = cs := by
  unfold skipMark
  split
  · exact absurd rfl h
  · rfl

theorem skipMark_parts {ps : List Part} (h : ∀ p ∈ ps, p.WellFormed) {tail : String} (ht : Spacing tail.toList) :
    skipMark (partsChars true ps ++ tail.toList) = partsChars true ps ++ tail.toList := by
  refine skipMark_of_head ?_
  cases ps with
  | nil =>
    have hh : (tail.toList ++ []).head? ≠ some '\ufeff' := head?_spacing ht (by simp)
    rw [List.append_nil] at hh
    exact hh
  | cons p ps =>
    rw [partsChars, partChars, List.append_assoc, List.append_assoc]
    exact head?_spacing ((h p List.mem_cons_self).spacing_lead true) (by simp)

/-- **The text of a sheet is read back** as the same tables with the same values. -/
theorem Sheet.read?_text (s : Sheet) : Document.read? s.document.text = some s.reread.document := by
  have hl := lines?_parts s.wellFormed s.ended true (partsChars true s.parts ++ s.tail.toList).length (by
    rw [List.length_append]
    exact Nat.le_trans (length_linesOf_le s.parts true) (Nat.le_add_right _ _))
  have hb := addAllHeaded_parts s.parts (fun p hp => (s.wellFormed p hp).distinct) [] 1 true s.distinct
  unfold Document.read?
  rw [s.toList_text]
  simp only [skipMark_parts s.wellFormed s.ended, hl, bind, Option.bind_some]
  unfold Document.ofLines?
  rw [headed_linesOf]
  simp only [addPairs, bind, Option.bind_some]
  rw [List.map_nil, List.nil_append] at hb
  rw [hb]
  rfl

end Broadcast.Toml
