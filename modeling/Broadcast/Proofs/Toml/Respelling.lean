import Broadcast.Proofs.Toml.Exchange
import Broadcast.Proofs.Toml.Quoting

/-!
# Documents as their text spells them

A document whose strings are exchanged for those that its text spells has the same
text, also after a table in it was set. It comes from the lines and sections that
the document came from, with their strings exchanged.
-/

namespace Broadcast.Toml

open Entries

/-! ## Sections that are exchanged -/

def Headed.respelled (s : Headed) : Headed := { s with pairs := s.pairs.map Pair.respelled }

theorem find?_respelled (name : String) (es : Entries) :
    find? name (entriesRespelled es) = (find? name es).map Node.respelled := by
  have h := respelling.find?_entries name es
  rw [entries_respelling] at h
  exact h

theorem only_respelled (chosen : String → Bool) (es : Entries) :
    only chosen (entriesRespelled es) = entriesRespelled (only chosen es) := by
  rw [← entries_respelling, respelling.only_entries]

theorem implied_respelled (leaf : Key) (ks : List Key) (es : Entries) :
    implied leaf ks (entriesRespelled es) = entriesRespelled (implied leaf ks es) := by
  induction ks generalizing es with
  | nil =>
    rw [implied, implied, find?_respelled]
    rcases find? leaf.name es with _ | (⟨v, t, m⟩ | ⟨ns, comma, tail, m⟩ | ⟨form, sub⟩ | ns)
    · rfl
    · rfl
    · rw [Option.map_some, Node.respelled]
      rfl
    · rw [Option.map_some, Node.respelled]
      cases form <;> rfl
    · rw [Option.map_some, Node.respelled]
      rfl
  | cons k ks ih =>
    rw [implied, implied, find?_respelled]
    rcases find? k.name es with _ | (⟨v, t, m⟩ | ⟨ns, comma, tail, m⟩ | ⟨form, sub⟩ | ns)
    · rfl
    · rfl
    · rw [Option.map_some, Node.respelled]
      rfl
    · rw [Option.map_some, Node.respelled]
      exact ih sub
    · rw [Option.map_some, Node.respelled, nodesRespelled_eq]
      simp only [List.getLast?_map]
      rcases ns.getLast? with _ | (⟨v, t, m⟩ | ⟨ns', comma, tail, m⟩ | ⟨form, sub⟩ | ns')
      · rfl
      · rfl
      · rw [Option.map_some, Node.respelled]
        rfl
      · rw [Option.map_some, Node.respelled]
        exact ih sub
      · rw [Option.map_some, Node.respelled]
        rfl

theorem isApart_respelled (s : Headed) (es : Entries) : s.respelled.isApart (entriesRespelled es) = s.isApart es := by
  have hcontains (name : String) (es : Entries) : contains name (entriesRespelled es) = contains name es := by
    rw [← entries_respelling, respelling.contains_entries]
  rw [Headed.isApart, Headed.isApart, Headed.respelled, List.all_map]
  simp only [implied_respelled, hcontains]
  rfl

theorem addHeaded_respelled (s : Headed) (place : Nat) (ks : List Key) (es : Entries) :
    addHeaded s.respelled place ks (entriesRespelled es) = (addHeaded s place ks es).map entriesRespelled := by
  have hof : respelling.IsOf s s.respelled := by
    refine ⟨rfl, ?_, ?_⟩
    · rw [Rewriting.path]
      exact congrArg (KeyPath.mk · s.path.leaf) (List.map_id s.path.parents).symm
    · rw [pair_respelling]
      rfl
  have h := Rewriting.addHeaded_entries (q := .same) (i := place) (j := place) hof rfl ks es
  have hsame : Rewriting.same.entries = id := funext Rewriting.entries_same
  have hkeys : ks.map respelling.key = ks := List.map_id ks
  rw [hsame, hkeys, Option.map_id_fun, id, id, entries_respelling] at h
  exact h

theorem addAllHeaded_respelled (ss : List Headed) (place : Nat) (es : Entries) :
    addAllHeaded place (entriesRespelled es) (ss.map Headed.respelled) =
      (addAllHeaded place es ss).map entriesRespelled := by
  induction ss generalizing place es with
  | nil => rfl
  | cons s ss ih =>
    have hs : addHeaded s.respelled place s.respelled.path.parents (entriesRespelled es) =
        (addHeaded s place s.path.parents es).map entriesRespelled := addHeaded_respelled s place s.path.parents es
    rw [List.map_cons, addAllHeaded, addAllHeaded, hs]
    cases addHeaded s place s.path.parents es with
    | none => rfl
    | some es₁ => exact ih (place + 1) es₁

theorem areApart_respelled (ss : List Headed) (place : Nat) (es : Entries) :
    areApart place (entriesRespelled es) (ss.map Headed.respelled) = areApart place es ss := by
  induction ss generalizing place es with
  | nil => rfl
  | cons s ss ih =>
    have hs : addHeaded s.respelled place s.respelled.path.parents (entriesRespelled es) =
        (addHeaded s place s.path.parents es).map entriesRespelled := addHeaded_respelled s place s.path.parents es
    rw [List.map_cons, areApart, areApart, isApart_respelled, hs]
    cases addHeaded s place s.path.parents es with
    | none => rfl
    | some es₁ => exact congrArg _ (ih (place + 1) es₁)

theorem Grown.spelled {line : Key → Node → Prop} {inner title : Key → Prop}
    (hline : ∀ k n, line k n → n.respelled.misspells = false) {e : Key × Node} (h : Grown line inner title e) :
    e.2.respelled.misspells = false := by
  have below {form : Form} {sub : Entries} (ih : ∀ e ∈ sub, e.2.respelled.misspells = false) :
      (Node.table form sub).respelled.misspells = false := by
    rw [Node.respelled, Node.misspells, entriesMisspell_eq_false, entriesRespelled_eq]
    exact List.forall_mem_map.mpr ih
  induction h with
  | value _ hl => exact hline _ _ hl
  | dotted _ _ _ ih => exact below ih
  | implied _ _ _ _ ih => exact below ih
  | header _ _ _ ih => exact below ih
  | tables _ _ _ ih =>
    rw [Node.respelled, Node.misspells, nodesMisspell_eq_false, nodesRespelled_eq]
    exact List.forall_mem_map.mpr (List.forall_mem_map.mpr fun n hn => below (ih n hn))

/-! ## The text stays -/

mutual
theorem Node.blocks_respelled (path : List Key) (array : Bool) (last : Nat) : ∀ n : Node,
    n.respelled.blocks path array last = n.blocks path array last
  | .scalar .. => rfl
  | .array .. => by rw [Node.respelled]; rfl
  | .table form es => by
    rw [Node.respelled]
    cases form with
    | inline => rfl
    | dotted => rw [Node.blocks, Node.blocks, entryBlocks_respelled path last es]
    | _ => simp only [Node.blocks, entryBlocks_respelled path _ es, pairTexts_respelled]
  | .tables elements => by rw [Node.respelled, Node.blocks, Node.blocks, elementBlocks_respelled path last elements]
theorem entryBlocks_respelled (path : List Key) (last : Nat) : ∀ es : List (Key × Node),
    entryBlocks path last (entriesRespelled es) = entryBlocks path last es
  | [] => rfl
  | (k, n) :: es => by
    simp only [entriesRespelled, entryBlocks, n.blocks_respelled (path ++ [k]) false last,
      entryBlocks_respelled path _ es]
theorem elementBlocks_respelled (path : List Key) (last : Nat) : ∀ ns : List Node,
    elementBlocks path last (nodesRespelled ns) = elementBlocks path last ns
  | [] => rfl
  | n :: ns => by
    simp only [nodesRespelled, elementBlocks, n.blocks_respelled path true last, elementBlocks_respelled path _ ns]
end

namespace Document

def respelled (d : Document) : Document := { d with entries := entriesRespelled d.entries }

theorem text_respelled (d : Document) : d.respelled.text = d.text := by
  rw [text, text, respelled, pairTexts_respelled, entryBlocks_respelled]

theorem newTable_respelled (qs : List (String × Scalar)) : (newTable qs).respelled = newTable qs := by
  have hwritten (s : Scalar) : s.spelled s.written = s := by
    cases s with
    | string s =>
      have hend (c : Char) : ([] : List Char).head? ≠ some c := by simp
      have h := string?_written (hend _) (hend _) s.toList
      rw [List.append_nil] at h
      have hq : string? (Scalar.string s).written.toList = some (s.toList, []) := by
        rw [Scalar.written, quoted, String.toList_ofList]
        exact h
      rw [Scalar.spelled_of_string? hq, String.ofList_toList]
    | _ => rfl
  rw [newTable, Node.respelled, entriesRespelled_eq, newEntries, List.map_map]
  refine congrArg _ (List.map_congr_left fun q _ => ?_)
  simp only [Function.comp_apply, newPair, Node.respelled, hwritten]

theorem setTable_respelled (name : String) (qs : List (String × Scalar)) (d : Document) :
    (d.setTable name qs).respelled = d.respelled.setTable name qs := by
  have hcontains : contains name (entriesRespelled d.entries) = contains name d.entries := by
    rw [← entries_respelling, respelling.contains_entries]
  rw [setTable, setTable, respelled, respelled, hcontains]
  split
  · have hreplace := respelling.replace_entries name (newTable qs) d.entries
    rw [entries_respelling] at hreplace
    rw [← hreplace]
    exact congrArg (fun n => Document.mk (replace name n _) _) (newTable_respelled qs)
  · have hconcat := respelling.entries_concat d.entries (Key.bare name) (newTable qs)
    rw [entries_respelling] at hconcat
    rw [hconcat]
    exact congrArg (fun n => Document.mk (_ ++ [(Key.bare name, n)]) _) (newTable_respelled qs)

/-! ## Where it comes from -/

namespace Origin

variable {d : Document} {ps : List Pair} {es : Entries} {ss : List Headed}

theorem spelled (h : d.Origin ps es ss) (chosen : String → Bool) :
    entriesMisspell (only chosen d.respelled.entries) = false := by
  rw [Document.respelled, only_respelled, entriesMisspell_eq_false, entriesRespelled_eq]
  refine List.forall_mem_map.mpr fun e he => ?_
  exact (h.forest.entries e (List.mem_of_mem_filter he)).spelled fun _ _ hl => hl.value.spelled

theorem respelled (h : d.Origin ps es ss) :
    d.respelled.Origin (ps.map Pair.respelled) (entriesRespelled es) (ss.map Headed.respelled) where
  pairs := List.forall_mem_map.mpr fun p hp => (h.pairs p hp).respelled
  sections := List.forall_mem_map.mpr fun s hs =>
    ⟨(h.sections s hs).1, (h.sections s hs).2.1,
      List.forall_mem_map.mpr fun p hp => ((h.sections s hs).2.2 p hp).respelled⟩
  built := by
    have hbuilt := addPairs_respelled ps []
    rw [h.built] at hbuilt
    exact hbuilt
  grown := by
    rw [addAllHeaded_respelled, h.grown]
    rfl
  apart := (areApart_respelled ss 1 es).trans h.apart
  tail := h.tail

end Origin

end Document

end Broadcast.Toml
