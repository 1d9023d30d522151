import Broadcast.Proofs.Toml.Scalars

/-!
# Sheets

A sheet is a document of tables under bare headers, with plain values in lines
of their own and only comments and empty lines between them. Saving writes a
sheet, and a sheet with a table exchanged is a sheet again.
-/

namespace Broadcast.Toml

/-- Comments and empty lines, each with its end. -/
inductive Spacing : List Char → Prop
  | nil : Spacing []
  | blank {cs : List Char} : Spacing cs → Spacing ('\n' :: cs)
  | comment {text cs : List Char} : (∀ c ∈ text, isPlain c = true) → Spacing cs → Spacing ('#' :: (text ++ '\n' :: cs))

def isSpacing : Bool → List Char → Bool
  | false, [] => true
  | true, [] => false
  | inComment, c :: cs =>
    if c = '\n' then isSpacing false cs
    else if inComment then isPlain c && isSpacing true cs
    else c = '#' && isSpacing true cs

theorem spacing_of_isSpacing (cs : List Char) :
    (isSpacing false cs = true → Spacing cs) ∧
      (isSpacing true cs = true →
        ∃ text rest, cs = text ++ '\n' :: rest ∧ (∀ c ∈ text, isPlain c = true) ∧ Spacing rest) := by
  induction cs with
  | nil => exact ⟨fun _ => .nil, fun h => by cases h⟩
  | cons c cs ih =>
    by_cases hn : c = '\n'
    · subst hn
      exact ⟨fun h => .blank (ih.1 h), fun h => ⟨[], cs, rfl, by simp, ih.1 h⟩⟩
    · refine ⟨fun h => ?_, fun h => ?_⟩
      · simp only [isSpacing, if_neg hn, Bool.false_eq_true, ite_false, Bool.and_eq_true, decide_eq_true_eq] at h
        obtain ⟨rfl, h⟩ := h
        obtain ⟨text, rest, rfl, ht, hr⟩ := ih.2 h
        exact .comment ht hr
      · simp only [isSpacing, if_neg hn, ite_true, Bool.and_eq_true] at h
        obtain ⟨hc, h⟩ := h
        obtain ⟨text, rest, rfl, ht, hr⟩ := ih.2 h
        refine ⟨c :: text, rest, rfl, fun d hd => ?_, hr⟩
        rcases List.mem_cons.mp hd with rfl | hd
        · exact hc
        · exact ht d hd

def IsBareName (s : String) : Prop := s.toList ≠ [] ∧ s.toList.all isBare = true

instance (s : String) : Decidable (IsBareName s) := inferInstanceAs (Decidable (_ ∧ _))

structure Part where
  name : String
  pairs : List (String × Scalar)
  /-- The number of its header and the lines before it, if it was read from a file. -/
  origin : Option (Nat × String) := none

namespace Part

structure WellFormed (p : Part) : Prop where
  name : IsBareName p.name
  keys : ∀ q ∈ p.pairs, IsBareName q.1
  distinct : (p.pairs.map (·.1)).Nodup
  plain : ∀ q ∈ p.pairs, q.2.IsPlain
  lead : ∀ o, p.origin = some o → Spacing o.2.toList

def form (p : Part) : Form := .header (p.origin.map (·.1)) (p.origin.map fun o => ⟨o.2, ""⟩)

def entry (p : Part) : Key × Node := (Key.bare p.name, .table p.form (newEntries p.pairs))

def place (last : Nat) (p : Part) : Nat := (p.origin.map (·.1)).getD last

/-- The lines before the header; a new one keeps apart from what stands before it. -/
def lead (first : Bool) (p : Part) : String := (p.origin.map (·.2)).getD (if first then "" else "\n")

end Part

def Ordered (last : Nat) : List Part → Prop
  | [] => True
  | p :: ps => last ≤ p.place last ∧ Ordered (p.place last) ps

structure Sheet where
  parts : List Part
  tail : String
  wellFormed : ∀ p ∈ parts, p.WellFormed
  distinct : (parts.map Part.name).Nodup
  ordered : Ordered 0 parts
  ended : Spacing tail.toList

def Sheet.document (s : Sheet) : Document := ⟨s.parts.map Part.entry, s.tail⟩

/-! ## Printing -/

def pairChars (p : String × Scalar) : List Char :=
  p.1.toList ++ ' ' :: '=' :: ' ' :: (p.2.written.toList ++ ['\n'])

def partChars (first : Bool) (p : Part) : List Char :=
  (p.lead first).toList ++ '[' :: (p.name.toList ++ ']' :: '\n' :: p.pairs.flatMap pairChars)

def partsChars (first : Bool) : List Part → List Char
  | [] => []
  | p :: ps => partChars first p ++ partsChars false ps

theorem newEntries_cons (p : String × Scalar) (ps : List (String × Scalar)) :
    newEntries (p :: ps) = newPair p.1 p.2 :: newEntries ps := rfl

theorem pairTexts_newEntries (pairs : List (String × Scalar)) :
    pairTexts [] (newEntries pairs) = pairs.map fun p => p.1 ++ " " ++ "=" ++ (" " ++ p.2.written) := by
  induction pairs with
  | nil => rfl
  | cons p ps ih =>
    rw [newEntries_cons, List.map_cons, ← ih]
    simp [pairTexts, newPair, Node.isValue, Node.text, pathText, pathText.inner, Key.bare]

theorem toList_join_pairs (pairs : List (String × Scalar)) :
    (String.join ((pairTexts [] (newEntries pairs)).map (· ++ "\n"))).toList = pairs.flatMap pairChars := by
  rw [pairTexts_newEntries, String.toList_join, List.map_map, List.flatMap_map]
  refine congrArg (List.flatMap · pairs) (funext fun p => ?_)
  simp [pairChars]

def blocksOf (last : Nat) : List Part → List Block
  | [] => []
  | p :: ps =>
    ⟨p.place last, [Key.bare p.name], false, p.form, pairTexts [] (newEntries p.pairs)⟩ :: blocksOf (p.place last) ps

theorem entryBlocks_cons (path : List Key) (last : Nat) (e : Key × Node) (es : Entries) :
    entryBlocks path last (e :: es) =
      ((e.2.blocks (path ++ [e.1]) false last).1 ++
          (entryBlocks path (e.2.blocks (path ++ [e.1]) false last).2 es).1,
        (entryBlocks path (e.2.blocks (path ++ [e.1]) false last).2 es).2) := by
  rw [← Prod.eta e, entryBlocks]

theorem entryBlocks_newEntries (path : List Key) (last : Nat) (pairs : List (String × Scalar)) :
    entryBlocks path last (newEntries pairs) = ([], last) := by
  induction pairs with
  | nil => rfl
  | cons p ps ih =>
    have hb : (newPair p.1 p.2).2.blocks (path ++ [(newPair p.1 p.2).1]) false last = ([], last) := by
      simp only [newPair, Node.blocks]
    rw [newEntries_cons, entryBlocks_cons, hb, ih, List.append_nil]

theorem Part.place_form (p : Part) (last : Nat) : p.form.place last = p.place last := by
  unfold form place Form.place
  cases p.origin <;> rfl

theorem blocks_part (p : Part) (last : Nat) :
    (p.entry.2.blocks [p.entry.1] false last) =
      ([⟨p.place last, [Key.bare p.name], false, p.form, pairTexts [] (newEntries p.pairs)⟩], p.place last) := by
  have hf := p.place_form last
  unfold Part.entry Part.form at *
  simp only [Node.blocks, entryBlocks_newEntries, hf]

theorem entryBlocks_parts (ps : List Part) :
    ∀ last, (entryBlocks [] last (ps.map Part.entry)).1 = blocksOf last ps := by
  induction ps with
  | nil => intro last; rfl
  | cons p ps ih =>
    intro last
    rw [List.map_cons, entryBlocks_cons, List.nil_append, blocks_part, ih]
    rfl

theorem place_of_mem_blocksOf {ps : List Part} : ∀ {last : Nat}, Ordered last ps → ∀ b ∈ blocksOf last ps,
    last ≤ b.place := by
  induction ps with
  | nil => intro last _ b hb; cases hb
  | cons p ps ih =>
    intro last h b hb
    rcases List.mem_cons.mp hb with rfl | hb
    · exact h.1
    · exact Nat.le_trans h.1 (ih h.2 b hb)

theorem sortedBlocks_blocksOf {ps : List Part} {last : Nat} (h : Ordered last ps) :
    sortedBlocks (blocksOf last ps) = blocksOf last ps := by
  refine List.mergeSort_of_pairwise ?_
  induction ps generalizing last with
  | nil => exact .nil
  | cons p ps ih => exact .cons (fun b hb => decide_eq_true (place_of_mem_blocksOf h.2 b hb)) (ih h.2)

theorem toList_blocksText (ps : List Part) : ∀ first last,
    (blocksText first (blocksOf last ps)).toList = partsChars first ps := by
  induction ps with
  | nil => intro first last; rfl
  | cons p ps ih =>
    intro first last
    have hs : ∀ b : Block, b.form = p.form → b.isShown = true := by
      intro b hb
      unfold Block.isShown
      rw [hb]
      simp [Part.form]
    rw [blocksOf, blocksText, if_pos (hs _ rfl), String.toList_append, String.toList_append, ih, toList_join_pairs,
      partsChars, partChars]
    congr 1
    unfold Block.header Part.form Part.lead
    cases p.origin <;> simp [pathText, pathText.inner, Key.bare]

theorem pairTexts_parts (ps : List Part) : pairTexts [] (ps.map Part.entry) = [] := by
  induction ps with
  | nil => rfl
  | cons p ps ih =>
    rw [List.map_cons, Part.entry, Part.form, pairTexts]
    · exact ih
    · intro sub h; cases h

theorem Sheet.toList_text (s : Sheet) : s.document.text.toList = partsChars true s.parts ++ s.tail.toList := by
  unfold Document.text Sheet.document
  simp only [pairTexts_parts, entryBlocks_parts, sortedBlocks_blocksOf s.ordered]
  rw [String.toList_append, String.toList_append, List.isEmpty_nil, toList_blocksText]
  rfl

/-! ## The sheet that is read back -/

theorem Part.WellFormed.spacing_lead {p : Part} (h : p.WellFormed) (first : Bool) : Spacing (p.lead first).toList := by
  unfold Part.lead
  cases ho : p.origin with
  | some o => exact h.lead o ho
  | none =>
    cases first with
    | true => exact .nil
    | false => exact .blank .nil

/-- The tables with the numbers and the lines before them that they have when they are read. -/
def settled (place : Nat) (first : Bool) : List Part → List Part
  | [] => []
  | p :: ps => { p with origin := some (place, p.lead first) } :: settled (place + 1) false ps

theorem map_settled {α : Type} (f : String → List (String × Scalar) → α) (ps : List Part) : ∀ place first,
    (settled place first ps).map (fun p => f p.name p.pairs) = ps.map fun p => f p.name p.pairs := by
  induction ps with
  | nil => intro place first; rfl
  | cons p ps ih => intro place first; rw [settled, List.map_cons, List.map_cons, ih]

theorem wellFormed_settled {ps : List Part} (h : ∀ p ∈ ps, p.WellFormed) : ∀ place first,
    ∀ p ∈ settled place first ps, p.WellFormed := by
  induction ps with
  | nil => intro place first p hp; cases hp
  | cons p ps ih =>
    intro place first q hq
    have hp := h p List.mem_cons_self
    rcases List.mem_cons.mp hq with rfl | hq
    · exact ⟨hp.name, hp.keys, hp.distinct, hp.plain, fun o ho => by cases ho; exact hp.spacing_lead first⟩
    · exact ih (fun r hr => h r (List.mem_cons_of_mem p hr)) _ _ q hq

theorem ordered_settled (ps : List Part) :
    ∀ place first last, last ≤ place → Ordered last (settled place first ps) := by
  induction ps with
  | nil => intro _ _ _ _; trivial
  | cons p ps ih => intro place first last h; exact ⟨h, ih (place + 1) false place (Nat.le_succ place)⟩

def Sheet.reread (s : Sheet) : Sheet where
  parts := settled 1 true s.parts
  tail := s.tail
  wellFormed := wellFormed_settled s.wellFormed 1 true
  distinct := by
    have hn : (settled 1 true s.parts).map Part.name = s.parts.map Part.name :=
      map_settled (fun n _ => n) s.parts 1 true
    rw [hn]
    exact s.distinct
  ordered := ordered_settled s.parts 1 true 0 (Nat.zero_le 1)
  ended := s.ended

/-! ## A table exchanged -/

def patched (q : Part) (ps : List Part) : List Part :=
  if q.name ∈ ps.map Part.name then ps.map fun p => if p.name = q.name then q else p else ps ++ [q]

theorem mem_patched {q p : Part} {ps : List Part} (h : p ∈ patched q ps) : p = q ∨ p ∈ ps := by
  unfold patched at h
  split at h
  · obtain ⟨r, hr, rfl⟩ := List.mem_map.mp h
    split
    · exact .inl rfl
    · exact .inr hr
  · rcases List.mem_append.mp h with h | h
    · exact .inr h
    · exact .inl (List.mem_singleton.mp h)

theorem nodup_patched {q : Part} {ps : List Part} (h : (ps.map Part.name).Nodup) :
    ((patched q ps).map Part.name).Nodup := by
  unfold patched
  split
  · have hn : (ps.map fun p => if p.name = q.name then q else p).map Part.name = ps.map Part.name := by
      rw [List.map_map]
      refine List.map_congr_left fun p _ => ?_
      simp only [Function.comp_apply]
      split
      · rename_i he; exact he.symm
      · rfl
    rw [hn]
    exact h
  · rename_i hq
    rw [List.map_append, List.nodup_append]
    refine ⟨h, by simp, fun a ha b hb => ?_⟩
    rw [List.map_cons, List.map_nil, List.mem_singleton] at hb
    rintro rfl
    exact hq (hb ▸ ha)

theorem Part.place_of_new {q : Part} (h : q.origin = none) (last : Nat) : q.place last = last := by
  unfold place; rw [h]; rfl

theorem ordered_of_le {ps : List Part} : ∀ {l m : Nat}, l ≤ m → Ordered m ps → Ordered l ps := by
  induction ps with
  | nil => intro l m _ _; trivial
  | cons p ps ih =>
    intro l m hle ⟨h₁, h₂⟩
    cases ho : p.origin with
    | none =>
      have hp (n : Nat) : p.place n = n := Part.place_of_new ho n
      rw [hp] at h₂
      exact ⟨Nat.le_of_eq (hp l).symm, (hp l).symm ▸ ih hle h₂⟩
    | some o =>
      have hp (n : Nat) : p.place n = o.1 := by unfold Part.place; rw [ho]; rfl
      rw [hp] at h₁ h₂
      exact ⟨(hp l).symm ▸ Nat.le_trans hle h₁, (hp l).symm ▸ h₂⟩

theorem ordered_map {q : Part} (hq : q.origin = none) {ps : List Part} : ∀ {last : Nat}, Ordered last ps →
    Ordered last (ps.map fun p => if p.name = q.name then q else p) := by
  induction ps with
  | nil => intro last h; exact h
  | cons p ps ih =>
    intro last ⟨h₁, h₂⟩
    rw [List.map_cons]
    split
    · have hp := Part.place_of_new hq last
      exact ⟨Nat.le_of_eq hp.symm, hp.symm ▸ ordered_of_le h₁ (ih h₂)⟩
    · exact ⟨h₁, ih h₂⟩

theorem ordered_append {q : Part} (hq : q.origin = none) {ps : List Part} : ∀ {last : Nat}, Ordered last ps →
    Ordered last (ps ++ [q]) := by
  induction ps with
  | nil => intro last _; exact ⟨Nat.le_of_eq (Part.place_of_new hq last).symm, trivial⟩
  | cons p ps ih => intro last ⟨h₁, h₂⟩; exact ⟨h₁, ih h₂⟩

def Sheet.set (s : Sheet) (q : Part) (hq : q.WellFormed) (hn : q.origin = none) : Sheet where
  parts := patched q s.parts
  tail := s.tail
  wellFormed p hp := (mem_patched hp).elim (fun he => he ▸ hq) (s.wellFormed p)
  distinct := nodup_patched s.distinct
  ordered := by
    unfold patched
    split
    · exact ordered_map hn s.ordered
    · exact ordered_append hn s.ordered
  ended := s.ended

theorem contains_map {α : Type} {f : α → Key × Node} {g : α → String} (h : ∀ a, (f a).1.name = g a) (name : String)
    (as : List α) : Entries.contains name (as.map f) = true ↔ name ∈ as.map g := by
  unfold Entries.contains Entries.find?
  rw [Option.isSome_map, List.find?_isSome, List.mem_map]
  constructor
  · rintro ⟨e, he, hn⟩
    obtain ⟨a, ha, rfl⟩ := List.mem_map.mp he
    exact ⟨a, ha, (h a).symm.trans (beq_iff_eq.mp hn)⟩
  · rintro ⟨a, ha, hn⟩
    exact ⟨f a, List.mem_map_of_mem ha, beq_iff_eq.mpr ((h a).trans hn)⟩

theorem contains_parts (name : String) (ps : List Part) :
    Entries.contains name (ps.map Part.entry) = true ↔ name ∈ ps.map Part.name :=
  contains_map (fun _ => rfl) name ps

/-- Exchanging a table of the document is exchanging it in the sheet. -/
theorem Sheet.setTable_document (s : Sheet) (q : Part) (hq : q.WellFormed) (hn : q.origin = none) :
    s.document.setTable q.name q.pairs = (s.set q hq hn).document := by
  have he : q.entry = (Key.bare q.name, newTable q.pairs) := by
    unfold Part.entry Part.form newTable
    rw [hn]
    rfl
  unfold Document.setTable Sheet.document Sheet.set patched
  simp only
  congr 1
  by_cases hc : q.name ∈ s.parts.map Part.name
  · rw [if_pos ((contains_parts _ _).mpr hc), if_pos hc]
    unfold Entries.replace
    rw [List.map_map, List.map_map]
    refine List.map_congr_left fun p _ => ?_
    simp only [Function.comp_apply]
    by_cases hp : p.name = q.name
    · have hb : (p.entry.1.name == q.name) = true := beq_iff_eq.mpr hp
      rw [if_pos hb, if_pos hp, he, ← hp]
      rfl
    · have hb : ¬ (p.entry.1.name == q.name) = true := fun h => hp (beq_iff_eq.mp h)
      rw [if_neg hb, if_neg hp]
  · rw [if_neg (fun h => hc ((contains_parts _ _).mp h)), if_neg hc, List.map_append, ← he]
    rfl

end Broadcast.Toml
