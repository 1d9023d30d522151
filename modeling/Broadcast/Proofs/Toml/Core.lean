import Broadcast.Proofs.Toml.Rewriting
import Broadcast.Toml.Edit

/-!
# Documents apart from their spelling

The core of a tree has its names, values and kinds of tables, but no spelling, no
margins and no places. Building a tree from lines and taking cores go together,
so lines with the same cores build trees with the same core, and these mean the
same.
-/

namespace Broadcast.Toml

/-! ## Cores -/

def Key.core (k : Key) : Key := Key.bare k.name

def Form.core : Form → Form
  | .inline .. => .inline false "" {}
  | .dotted => .dotted
  | .implied => .implied
  | .header .. => .header none none

mutual
def Node.core : Node → Node
  | .scalar v _ _ => .scalar v "" {}
  | .array items _ _ _ => .array (nodeCores items) false "" {}
  | .table form es => .table form.core (entryCores es)
  | .tables elements => .tables (nodeCores elements)
def nodeCores : List Node → List Node
  | [] => []
  | n :: ns => n.core :: nodeCores ns
def entryCores : List (Key × Node) → List (Key × Node)
  | [] => []
  | (k, n) :: es => (k.core, n.core) :: entryCores es
end

def KeyPath.core (p : KeyPath) : KeyPath := ⟨p.parents.map Key.core, p.leaf.core⟩

def Pair.core (p : Pair) : Pair := ⟨p.path.core, p.value.core⟩

def Headed.core (s : Headed) : Headed := ⟨s.array, s.path.core, {}, s.pairs.map Pair.core⟩

theorem nodeCores_eq (ns : List Node) : nodeCores ns = ns.map Node.core := by
  induction ns with
  | nil => rfl
  | cons n ns ih => rw [nodeCores, ih]; rfl

theorem entryCores_eq (es : Entries) : entryCores es = es.map fun e => (e.1.core, e.2.core) := by
  induction es with
  | nil => rfl
  | cons e es ih => rw [← Prod.eta e, entryCores, ih]; rfl

theorem Form.core_core (f : Form) : f.core.core = f.core := by cases f <;> rfl

mutual
theorem Node.core_core : ∀ n : Node, n.core.core = n.core
  | .scalar .. => rfl
  | .array items _ _ _ => by rw [Node.core, Node.core, nodeCores_cores items]
  | .table form es => by rw [Node.core, Node.core, form.core_core, entryCores_cores es]
  | .tables elements => by rw [Node.core, Node.core, nodeCores_cores elements]
theorem nodeCores_cores : ∀ ns : List Node, nodeCores (nodeCores ns) = nodeCores ns
  | [] => rfl
  | n :: ns => by rw [nodeCores, nodeCores, n.core_core, nodeCores_cores ns]
theorem entryCores_cores : ∀ es : List (Key × Node), entryCores (entryCores es) = entryCores es
  | [] => rfl
  | (k, n) :: es => by rw [entryCores, entryCores, n.core_core, entryCores_cores es]; rfl
end

mutual
theorem Node.value_core : ∀ n : Node, n.core.value = n.value
  | .scalar .. => rfl
  | .array items _ _ _ => by rw [Node.core, Node.value, Node.value, nodeValues_cores items]
  | .table form es => by rw [Node.core, Node.value, Node.value, entryValues_cores es]
  | .tables elements => by rw [Node.core, Node.value, Node.value, nodeValues_cores elements]
theorem nodeValues_cores : ∀ ns : List Node, nodeValues (nodeCores ns) = nodeValues ns
  | [] => rfl
  | n :: ns => by rw [nodeCores, nodeValues, nodeValues, n.value_core, nodeValues_cores ns]
theorem entryValues_cores : ∀ es : List (Key × Node), entryValues (entryCores es) = entryValues es
  | [] => rfl
  | (k, n) :: es => by rw [entryCores, entryValues, entryValues, n.value_core, entryValues_cores es]; rfl
end

theorem nodeValues_eq_map (ns : List Node) : nodeValues ns = ns.map Node.value := by
  induction ns with
  | nil => rfl
  | cons n ns ih => rw [nodeValues, ih]; rfl

theorem entryValues_eq_map (es : Entries) : entryValues es = es.map fun e => (e.1.name, e.2.value) := by
  induction es with
  | nil => rfl
  | cons e es ih => rw [← Prod.eta e, entryValues, ih]; rfl

theorem Node.core_withMargin (m : Margin) (n : Node) : (n.withMargin m).core = n.core := by
  cases n with
  | table form es => cases form <;> rfl
  | scalar v t m' => rfl
  | array items comma tail m' => simp only [Node.withMargin, Node.core]
  | tables elements => rfl

/-! ## Building -/

def coring : Rewriting where
  key := Key.core
  form := Form.core
  node := Node.core
  name_key _ := rfl
  form_inline _ _ _ := ⟨_, _, _, rfl⟩
  form_dotted := rfl
  form_implied := rfl
  form_header _ _ := ⟨_, _, rfl⟩
  node_scalar _ _ _ := ⟨_, _, _, rfl⟩
  node_array _ _ _ _ := ⟨_, _, _, _, rfl⟩
  node_table form es := by rw [Node.core, entryCores_eq]
  node_tables elements := by rw [Node.core, nodeCores_eq]

theorem entries_coring : coring.entries = entryCores := funext fun es => (entryCores_eq es).symm

theorem addPairs_core (ps : List Pair) (es : Entries) :
    addPairs (entryCores es) (ps.map Pair.core) = (addPairs es ps).map entryCores := by
  have h := coring.addPairs_entries ps es
  rw [entries_coring] at h
  exact h

theorem addPairs_core_nil (ps : List Pair) : addPairs [] (ps.map Pair.core) = (addPairs [] ps).map entryCores :=
  addPairs_core ps []

namespace Entries

theorem only_core (chosen : String → Bool) (es : Entries) :
    only chosen (entryCores es) = entryCores (only chosen es) := by
  rw [← entries_coring, coring.only_entries]

/-- A section grows the same core on the same core, wherever it stands. -/
theorem addHeaded_core (s : Headed) (i j : Nat) (ks : List Key) (es : Entries) :
    (addHeaded s.core j (ks.map Key.core) (entryCores es)).map entryCores = (addHeaded s i ks es).map entryCores := by
  have hof : coring.IsOf s s.core := ⟨rfl, rfl, rfl⟩
  have h := Rewriting.addHeaded_entries (q := coring) (i := i) (j := j) hof rfl ks es
  have htwice : entryCores ∘ entryCores = entryCores := funext entryCores_cores
  rw [entries_coring, Option.map_map, htwice] at h
  exact h

end Entries

end Broadcast.Toml
