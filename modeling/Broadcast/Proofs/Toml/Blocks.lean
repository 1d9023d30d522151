import Broadcast.Proofs.Toml.Lines
import Mathlib.Data.List.Perm.Basic

/-!
# Printing chapter by chapter

The blocks of a document that print anything are its chapters, in the order of
their places. The table that is new in a document has no place in the file yet; it
is printed somewhere among them, and they keep their order.
-/

namespace Broadcast.Toml

open Entries

/-- The block that a chapter below a path is printed as. -/
def blockOf (path : List Key) (c : Nat × Headed) : Block :=
  ⟨c.1, path ++ c.2.path.keys, c.2.array, .header (some c.1) (some c.2.margin), c.2.pairs.map Pair.text⟩

theorem blockOf_isShown (path : List Key) (c : Nat × Headed) : (blockOf path c).isShown = true := by
  simp [blockOf, Block.isShown]

theorem map_blockOf_under (path : List Key) (k : Key) (cs : List (Nat × Headed)) :
    (cs.map (under k)).map (blockOf path) = cs.map (blockOf (path ++ [k])) := by
  rw [List.map_map]
  refine List.map_congr_left fun c _ => ?_
  simp [blockOf, under, KeyPath.keys]

/-! ## The blocks of a tree -/

def shown (bs : List Block) : List Block := bs.filter Block.isShown

theorem shown_append (as bs : List Block) : shown (as ++ bs) = shown as ++ shown bs := List.filter_append as bs

theorem pairTexts_ownLines (es : Entries) : pairTexts [] es = (ownLines es).map Pair.text := pairTexts_eq [] es

section
variable {line : Key → Node → Prop} {inner title : Key → Prop} {es : Entries}

theorem shown_entryBlocks_of (h : ∀ e ∈ es, ∀ path last,
    shown (e.2.blocks (path ++ [e.1]) false last).1 = (e.2.chapters false e.1).map (blockOf path)) :
    ∀ path last, shown (entryBlocks path last es).1 = (chapters es).map (blockOf path) := by
  induction es with
  | nil => intro path last; rfl
  | cons e es ih =>
    intro path last
    rw [List.forall_mem_cons] at h
    rw [entryBlocks_cons, shown_append, h.1, ih h.2, ← Prod.eta e, chapters, List.map_append]

theorem blocks_table {form : Form} (h₁ : form.isInline = false) (h₂ : form ≠ .dotted) (path : List Key) (array : Bool)
    (last : Nat) (es : Entries) :
    ((Node.table form es).blocks path array last).1 =
      ⟨form.place last, path, array, form, pairTexts [] es⟩ :: (entryBlocks path (form.place last) es).1 := by
  cases form with
  | inline => cases h₁
  | dotted => exact absurd rfl h₂
  | implied => rfl
  | header => rfl

theorem shown_header {sub : Entries}
    (h : ∀ path last, shown (entryBlocks path last sub).1 = (chapters sub).map (blockOf path))
    (array : Bool) (k : Key) (place : Nat) (margin : Margin) (path : List Key) (last : Nat) :
    shown ((Node.table (.header (some place) (some margin)) sub).blocks (path ++ [k]) array last).1 =
      ((Node.table (.header (some place) (some margin)) sub).chapters array k).map (blockOf path) := by
  rw [blocks_table rfl (by simp), Node.chapters]
  simp only [Form.isInline, Form.chapter, Bool.false_eq_true, ite_false, List.map_append, map_blockOf_under]
  rw [← h (path ++ [k]) place, pairTexts_ownLines]
  exact List.filter_cons_of_pos (blockOf_isShown path (place, ⟨array, ⟨[], k⟩, margin, ownLines sub⟩))

theorem Grown.shown_blocks {e : Key × Node} (h : Grown line inner title e) : ∀ path last,
    shown (e.2.blocks (path ++ [e.1]) false last).1 = (e.2.chapters false e.1).map (blockOf path) := by
  induction h with
  | @value k n hv =>
    intro path last
    cases n with
    | table form es => cases form with
      | inline => rfl
      | _ => cases hv
    | tables elements => cases hv
    | _ => rfl
  | @dotted k sub _ _ _ ih =>
    intro path last
    have hsub := shown_entryBlocks_of ih (path ++ [k]) last
    rw [Node.blocks, hsub, Node.chapters]
    exact (map_blockOf_under path k _).symm
  | @implied k sub _ hl _ _ ih =>
    intro path last
    have hsub := shown_entryBlocks_of ih (path ++ [k]) last
    have hhidden : Block.isShown ⟨last, path ++ [k], false, .implied, pairTexts [] sub⟩ = false := by
      rw [pairTexts_ownLines, hl]
      rfl
    rw [blocks_table rfl (by simp), Node.chapters]
    simp only [Form.isInline, Form.chapter, Bool.false_eq_true, ite_false, List.nil_append, map_blockOf_under]
    rw [← hsub]
    exact List.filter_cons_of_neg (Bool.eq_false_iff.mp hhidden)
  | @header k place margin sub _ _ _ ih =>
    exact shown_header (shown_entryBlocks_of ih) false k place margin
  | @tables k elements _ hd hall ih =>
    intro path last
    rw [Node.blocks, Node.chapters]
    clear hd hall
    induction elements generalizing last with
    | nil => rfl
    | cons n elements ihe =>
      rw [List.forall_mem_cons] at ih
      rw [List.map_cons, elementChapters, List.map_append, ← ihe ih.2,
        ← shown_header (shown_entryBlocks_of ih.1) true k n.1 n.2.1 path last, ← shown_append]
      rfl

theorem Forest.shown_blocks (h : Forest line inner title es) (path : List Key) (last : Nat) :
    shown (entryBlocks path last es).1 = (chapters es).map (blockOf path) :=
  shown_entryBlocks_of (fun e he => (h.entries e he).shown_blocks) path last

end

/-! ## A new table -/

def newBlock (k : Key) (last : Nat) (qs : List (String × Scalar)) : Block :=
  ⟨last, [k], false, .header none none, pairTexts [] (newEntries qs)⟩

theorem entryBlocks_append (path : List Key) (last : Nat) (as bs : Entries) :
    (entryBlocks path last (as ++ bs)).1 =
      (entryBlocks path last as).1 ++ (entryBlocks path (entryBlocks path last as).2 bs).1 := by
  induction as generalizing last with
  | nil => rfl
  | cons e as ih => rw [List.cons_append, entryBlocks_cons, entryBlocks_cons, ih, List.append_assoc]

theorem shown_setTable {line : Key → Node → Prop} {inner title : Key → Prop} {as bs : Entries}
    (has : Forest line inner title as) (hbs : Forest line inner title bs) (k : Key) (qs : List (String × Scalar)) :
    ∃ last, shown (entryBlocks [] 0 (as ++ (k, newTable qs) :: bs)).1 =
      (chapters as).map (blockOf []) ++ newBlock k last qs :: (chapters bs).map (blockOf []) := by
  refine ⟨(entryBlocks [] 0 as).2, ?_⟩
  rw [entryBlocks_append, shown_append, has.shown_blocks, entryBlocks_cons, shown_append, hbs.shown_blocks, newTable,
    blocks_table rfl (by simp), entryBlocks_newEntries]
  rfl

/-! ## In the order of their places -/

theorem exists_map_of_perm {α β : Type} {f : β → α} {as : List α} {bs : List β} (h : as.Perm (bs.map f)) :
    ∃ bs' : List β, bs'.Perm bs ∧ as = bs'.map f := by
  have hmap : List.Forall₂ (fun a b => a = f b) (bs.map f) bs :=
    List.forall₂_map_left_iff.mpr (List.forall₂_same.mpr fun _ _ => rfl)
  obtain ⟨bs', hbs', hperm⟩ := List.perm_comp_forall₂ h hmap
  refine ⟨bs', hperm, ?_⟩
  clear hmap hperm h
  induction hbs' with
  | nil => rfl
  | cons he _ ih => rw [List.map_cons, he, ih]

theorem sortedBlocks_perm (bs : List Block) : (shown (sortedBlocks bs)).Perm (shown bs) :=
  (List.mergeSort_perm bs _).filter _

theorem sortedBlocks_pairwise (bs : List Block) : (shown (sortedBlocks bs)).Pairwise fun a b => a.place ≤ b.place := by
  have hsorted : (sortedBlocks bs).Pairwise fun a b => decide (a.place ≤ b.place) = true := by
    refine List.pairwise_mergeSort (fun a b c hab hbc => ?_) (fun a b => ?_) bs
    · rw [decide_eq_true_eq] at hab hbc ⊢
      exact Nat.le_trans hab hbc
    · rw [Bool.or_eq_true, decide_eq_true_eq, decide_eq_true_eq]
      exact Nat.le_total _ _
  exact (hsorted.imp fun h => of_decide_eq_true h).filter _

/-- Around a new block the others stand in the order of their places. -/
theorem sortedBlocks_around {bs : List Block} {b : Block} {cs ds : List (Nat × Headed)}
    (h : shown bs = cs.map (blockOf []) ++ b :: ds.map (blockOf [])) :
    ∃ cs' ds' : List (Nat × Headed), shown (sortedBlocks bs) = cs'.map (blockOf []) ++ b :: ds'.map (blockOf []) ∧
      (cs' ++ ds').Perm (cs ++ ds) ∧ (cs' ++ ds').Pairwise fun c d => c.1 ≤ d.1 := by
  have hperm := sortedBlocks_perm bs
  rw [h] at hperm
  obtain ⟨front, back, hsplit⟩ := List.append_of_mem (hperm.mem_iff.mpr (List.mem_append_right _ List.mem_cons_self))
  have hsorted := sortedBlocks_pairwise bs
  rw [hsplit] at hperm hsorted ⊢
  have hrest : (front ++ back).Perm ((cs ++ ds).map (blockOf [])) := by
    rw [List.map_append]
    exact ((List.perm_middle.symm.trans hperm).trans List.perm_middle).cons_inv
  obtain ⟨all, hall, he⟩ := exists_map_of_perm hrest
  obtain ⟨cs', ds', rfl, rfl, rfl⟩ := List.append_eq_map_iff.mp he
  refine ⟨cs', ds', rfl, hall, ?_⟩
  have hsub : List.Sublist (cs'.map (blockOf []) ++ ds'.map (blockOf []))
      (cs'.map (blockOf []) ++ b :: ds'.map (blockOf [])) :=
    List.Sublist.append_left (List.sublist_cons_self _ _) _
  have hpair := hsorted.sublist hsub
  rw [← List.map_append, List.pairwise_map] at hpair
  exact hpair

/-! ## The text of the blocks -/

theorem blocksText_shown (first : Bool) (bs : List Block) : blocksText first bs = blocksText first (shown bs) := by
  induction bs generalizing first with
  | nil => rfl
  | cons b bs ih =>
    rw [blocksText]
    split
    · rename_i h
      rw [shown, List.filter_cons_of_pos h, blocksText, if_pos h, ih]
      rfl
    · rename_i h
      rw [ih, shown, shown, List.filter_cons_of_neg h]

theorem toList_lineTexts (ps : List Pair) :
    (String.join ((ps.map Pair.text).map (· ++ "\n"))).toList = lineChars ps := by
  rw [String.toList_join, List.map_map, List.flatMap_map]
  exact congrArg (List.flatMap · ps) (funext fun p => String.toList_append)

theorem toList_block (c : Nat × Headed) (first : Bool) :
    ((blockOf [] c).header first ++ String.join ((blockOf [] c).pairs.map (· ++ "\n"))).toList = c.2.chars := by
  have hheader : (blockOf [] c).header first = headerText c.2.array c.2.path.keys c.2.margin := rfl
  rw [String.toList_append, hheader, blockOf, toList_lineTexts]
  rfl

theorem toList_blocksText_chapters (cs : List (Nat × Headed)) (rest : List Block) (first : Bool) :
    ∃ first', (blocksText first (cs.map (blockOf []) ++ rest)).toList =
      (cs.map (·.2)).flatMap Headed.chars ++ (blocksText first' rest).toList := by
  induction cs generalizing first with
  | nil => exact ⟨first, rfl⟩
  | cons c cs ih =>
    obtain ⟨first', h⟩ := ih false
    refine ⟨first', ?_⟩
    rw [List.map_cons, List.cons_append, blocksText, if_pos (blockOf_isShown [] c), String.toList_append, h,
      toList_block, List.map_cons, List.flatMap_cons, List.append_assoc]

theorem toList_blocksText_around (k : Key) (last : Nat) (qs : List (String × Scalar)) (cs ds : List (Nat × Headed))
    (first : Bool) :
    ∃ lead : String, IsGap lead.toList ∧
      (blocksText first (cs.map (blockOf []) ++ newBlock k last qs :: ds.map (blockOf []))).toList =
        (cs.map (·.2)).flatMap Headed.chars ++ ((headerText false [k] ⟨lead, ""⟩).toList ++
          (qs.flatMap pairChars ++ (ds.map (·.2)).flatMap Headed.chars)) := by
  obtain ⟨first₁, h₁⟩ := toList_blocksText_chapters cs (newBlock k last qs :: ds.map (blockOf [])) first
  obtain ⟨first₂, h₂⟩ := toList_blocksText_chapters ds [] false
  have hshown : (newBlock k last qs).isShown = true := by simp [newBlock, Block.isShown]
  have hheader : (newBlock k last qs).header first₁ = headerText false [k] ⟨if first₁ then "" else "\n", ""⟩ := rfl
  refine ⟨if first₁ then "" else "\n", ?_, ?_⟩
  · cases first₁
    · exact isGap_newline
    · exact isGap_nil
  · rw [List.append_nil, blocksText, String.toList_empty, List.append_nil] at h₂
    rw [h₁, blocksText, if_pos hshown, String.toList_append, String.toList_append, h₂, hheader, newBlock,
      toList_join_pairs, List.append_assoc]

end Broadcast.Toml
