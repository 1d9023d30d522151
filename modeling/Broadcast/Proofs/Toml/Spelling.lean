import Broadcast.Proofs.Toml.OwnLines

/-!
# Strings as their text spells them

The one thing that is lost in the text that is kept of a value are the carriage
returns of its line ends. So the text of a string may spell another string. A tree
whose strings are exchanged for those that are spelled has the same text, and lines
whose strings are exchanged build it.
-/

namespace Broadcast.Toml

/-! ## Misspelled strings -/

mutual
/-- Whether the text that is kept of a string is not one of the string. -/
def Node.misspells : Node → Bool
  | .scalar (.string s) text _ => string? text.toList != some (s.toList, [])
  | .scalar .. => false
  | .array items _ _ _ => nodesMisspell items
  | .table _ es => entriesMisspell es
  | .tables elements => nodesMisspell elements
def nodesMisspell : List Node → Bool
  | [] => false
  | n :: ns => n.misspells || nodesMisspell ns
def entriesMisspell : List (Key × Node) → Bool
  | [] => false
  | (_, n) :: es => n.misspells || entriesMisspell es
end

theorem nodesMisspell_eq_false {ns : List Node} : nodesMisspell ns = false ↔ ∀ n ∈ ns, n.misspells = false := by
  induction ns with
  | nil => simp [nodesMisspell]
  | cons n ns ih => rw [nodesMisspell, Bool.or_eq_false_iff, ih, List.forall_mem_cons]

theorem entriesMisspell_eq_false {es : Entries} :
    entriesMisspell es = false ↔ ∀ e ∈ es, e.2.misspells = false := by
  induction es with
  | nil => simp [entriesMisspell]
  | cons e es ih => rw [← Prod.eta e, entriesMisspell, Bool.or_eq_false_iff, ih, List.forall_mem_cons]

theorem Node.misspells_withMargin (m : Margin) (n : Node) : (n.withMargin m).misspells = n.misspells := by
  cases n with
  | table form es => cases form <;> rfl
  | scalar v t m' => cases v <;> rfl
  | array items comma tail m' => simp only [withMargin, misspells]
  | tables elements => rfl

/-! ## Strings that are exchanged -/

def Scalar.spelled (text : String) : Scalar → Scalar
  | .string s =>
    match string? text.toList with
    | some (s', []) => .string (String.ofList s')
    | _ => .string s
  | v => v

mutual
def Node.respelled : Node → Node
  | .scalar v text m => .scalar (v.spelled text) text m
  | .array items comma tail m => .array (nodesRespelled items) comma tail m
  | .table form es => .table form (entriesRespelled es)
  | .tables elements => .tables (nodesRespelled elements)
def nodesRespelled : List Node → List Node
  | [] => []
  | n :: ns => n.respelled :: nodesRespelled ns
def entriesRespelled : List (Key × Node) → List (Key × Node)
  | [] => []
  | (k, n) :: es => (k, n.respelled) :: entriesRespelled es
end

def Pair.respelled (p : Pair) : Pair := ⟨p.path, p.value.respelled⟩

theorem nodesRespelled_eq (ns : List Node) : nodesRespelled ns = ns.map Node.respelled := by
  induction ns with
  | nil => rfl
  | cons n ns ih => rw [nodesRespelled, ih]; rfl

theorem entriesRespelled_eq (es : Entries) : entriesRespelled es = es.map fun e => (e.1, e.2.respelled) := by
  induction es with
  | nil => rfl
  | cons e es ih => rw [← Prod.eta e, entriesRespelled, ih]; rfl

theorem Scalar.spelled_of_string? {text : String} {s : List Char} (h : string? text.toList = some (s, []))
    (s' : String) :
    Scalar.spelled text (.string s') = .string (String.ofList s) := by
  simp only [spelled, h]

theorem Scalar.spelled_spelled (text : String) (v : Scalar) : (v.spelled text).spelled text = v.spelled text := by
  cases v with
  | string s =>
    rcases h : string? text.toList with _ | ⟨s', _ | ⟨c, rest⟩⟩
    · simp only [spelled, h]
    · rw [spelled_of_string? h, spelled_of_string? h]
    · simp only [spelled, h]
  | _ => rfl

mutual
theorem Node.respelled_respelled : ∀ n : Node, n.respelled.respelled = n.respelled
  | .scalar v text m => by rw [Node.respelled, Node.respelled, v.spelled_spelled]
  | .array items _ _ _ => by rw [Node.respelled, Node.respelled, nodesRespelled_twice items]
  | .table _ es => by rw [Node.respelled, Node.respelled, entriesRespelled_twice es]
  | .tables elements => by rw [Node.respelled, Node.respelled, nodesRespelled_twice elements]
theorem nodesRespelled_twice : ∀ ns : List Node, nodesRespelled (nodesRespelled ns) = nodesRespelled ns
  | [] => rfl
  | n :: ns => by rw [nodesRespelled, nodesRespelled, n.respelled_respelled, nodesRespelled_twice ns]
theorem entriesRespelled_twice : ∀ es : List (Key × Node), entriesRespelled (entriesRespelled es) = entriesRespelled es
  | [] => rfl
  | (k, n) :: es => by rw [entriesRespelled, entriesRespelled, n.respelled_respelled, entriesRespelled_twice es]
end

mutual
theorem Node.respelled_of_spelled : ∀ {n : Node}, n.misspells = false → n.respelled = n
  | .scalar v text m, h => by
    cases v with
    | string s =>
      rw [Node.misspells, bne_eq_false_iff_eq] at h
      rw [Node.respelled, Scalar.spelled_of_string? h, String.ofList_toList]
    | _ => rfl
  | .array items _ _ _, h => by rw [Node.misspells] at h; rw [Node.respelled, nodesRespelled_of_spelled h]
  | .table _ es, h => by rw [Node.misspells] at h; rw [Node.respelled, entriesRespelled_of_spelled h]
  | .tables elements, h => by rw [Node.misspells] at h; rw [Node.respelled, nodesRespelled_of_spelled h]
theorem nodesRespelled_of_spelled : ∀ {ns : List Node}, nodesMisspell ns = false → nodesRespelled ns = ns
  | [], _ => rfl
  | n :: ns, h => by
    rw [nodesMisspell, Bool.or_eq_false_iff] at h
    rw [nodesRespelled, Node.respelled_of_spelled h.1, nodesRespelled_of_spelled h.2]
theorem entriesRespelled_of_spelled : ∀ {es : List (Key × Node)}, entriesMisspell es = false → entriesRespelled es = es
  | [], _ => rfl
  | (k, n) :: es, h => by
    rw [entriesMisspell, Bool.or_eq_false_iff] at h
    rw [entriesRespelled, Node.respelled_of_spelled h.1, entriesRespelled_of_spelled h.2]
end

theorem Node.isValue_respelled (n : Node) : n.respelled.isValue = n.isValue := by
  cases n with
  | table form es => rw [respelled]; cases form <;> rfl
  | _ => rw [respelled]; rfl

theorem Node.respelled_withMargin (m : Margin) (n : Node) : (n.withMargin m).respelled = n.respelled.withMargin m := by
  cases n with
  | table form es => cases form <;> simp only [withMargin, respelled]
  | _ => simp only [withMargin, respelled]

/-! ## The text stays -/

mutual
theorem Node.text_respelled : ∀ n : Node, n.respelled.text = n.text
  | .scalar .. => rfl
  | .array items _ _ _ => by rw [Node.respelled, Node.text, Node.text, nodeTexts_respelled items]
  | .table form es => by
    rw [Node.respelled]
    cases form with
    | inline comma tail m => rw [Node.text, Node.text, pairTexts_respelled [] es]
    | _ => rfl
  | .tables _ => rfl
theorem nodeTexts_respelled : ∀ ns : List Node, nodeTexts (nodesRespelled ns) = nodeTexts ns
  | [] => rfl
  | n :: ns => by rw [nodesRespelled, nodeTexts, nodeTexts, n.text_respelled, nodeTexts_respelled ns]
theorem pairTexts_respelled (path : List Key) : ∀ es : List (Key × Node),
    pairTexts path (entriesRespelled es) = pairTexts path es
  | [] => rfl
  | (k, n) :: es => by
    have ih := pairTexts_respelled path es
    rw [entriesRespelled]
    by_cases hd : ∃ sub, n = .table .dotted sub
    · obtain ⟨sub, rfl⟩ := hd
      rw [Node.respelled, pairTexts, pairTexts, pairTexts_respelled (path ++ [k]) sub, ih]
    · have hd (sub : Entries) : n ≠ .table .dotted sub := fun h => hd ⟨sub, h⟩
      rw [pairTexts, pairTexts, n.isValue_respelled, n.text_respelled, ih]
      · exact hd
      · intro sub h
        cases n with
        | table form es =>
          rw [Node.respelled] at h
          cases h
          exact hd _ rfl
        | _ => rw [Node.respelled] at h; cases h
end

/-! ## Lines that are exchanged -/

def respelling : Rewriting :=
  { Rewriting.same with
    node := Node.respelled
    node_scalar := fun _ _ _ => ⟨_, _, _, by rw [Node.respelled]⟩
    node_array := fun _ _ _ _ => ⟨_, _, _, _, by rw [Node.respelled]⟩
    node_table := fun form es => by rw [Node.respelled, entriesRespelled_eq]; rfl
    node_tables := fun elements => by rw [Node.respelled, nodesRespelled_eq] }

theorem entries_respelling : respelling.entries = entriesRespelled := funext fun es => (entriesRespelled_eq es).symm

theorem pair_respelling : respelling.pair = Pair.respelled := by
  funext p
  exact congrArg (fun ks => (⟨⟨ks, p.path.leaf⟩, p.value.respelled⟩ : Pair)) (List.map_id p.path.parents)

theorem addPairs_respelled (ps : List Pair) (es : Entries) :
    addPairs (entriesRespelled es) (ps.map Pair.respelled) = (addPairs es ps).map entriesRespelled := by
  rw [← entries_respelling, ← pair_respelling, respelling.addPairs_entries]

section
variable {line : Key → Node → Prop} {dotted : Key → Prop}

theorem Pair.Fits.respelled (hline : ∀ k n, line k n → line k n.respelled) {p : Pair} (h : p.Fits line dotted) :
    p.respelled.Fits line dotted :=
  ⟨(p.value.isValue_respelled).trans h.value, hline _ _ h.line, h.dotted⟩

theorem OwnEntry.spelled (hline : ∀ k n, line k n → n.respelled.misspells = false) {e : Key × Node}
    (h : OwnEntry line dotted e) : e.2.respelled.misspells = false := by
  induction h with
  | value _ hl => exact hline _ _ hl
  | dotted _ _ _ _ ih =>
    rw [Node.respelled, Node.misspells, entriesMisspell_eq_false, entriesRespelled_eq]
    exact List.forall_mem_map.mpr ih

end

end Broadcast.Toml
