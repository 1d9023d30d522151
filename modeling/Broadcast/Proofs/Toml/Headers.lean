import Broadcast.Proofs.Toml.OwnLines

/-!
# Tables under headers

A header opens its table in the tables its path leads through. A table that was
there already, because headers below it came first, keeps what they put into it,
and the lines under the header build the rest on their own: as long as their keys
do not lead into those tables. The reader refuses most lines that do, and takes
`x.w.y = 1` in a table that has `x` from a header of a table in `x`.
-/

namespace Broadcast.Toml

open Entries

def KeyPath.first (p : KeyPath) : Key := p.parents.headD p.leaf

theorem KeyPath.first_core (p : KeyPath) : p.core.first = p.first.core := by
  rcases p with ⟨_ | ⟨k, ks⟩, leaf⟩ <;> rfl

theorem first_of_mem_ownLines {k : Key} {n : Node} {p : Pair} (h : p ∈ n.ownLines k) : p.path.first = k := by
  by_cases hd : ∃ sub, n = .table .dotted sub
  · obtain ⟨sub, rfl⟩ := hd
    rw [Node.ownLines] at h
    obtain ⟨q, -, rfl⟩ := List.mem_map.mp h
    rfl
  · rw [Node.ownLines] at h
    · split at h
      · rw [List.mem_singleton.mp h]; rfl
      · cases h
    · exact fun sub he => hd ⟨sub, he⟩

namespace Entries

/-- What headers have put into the table under a path that has no header of its own yet. -/
def implied (leaf : Key) : List Key → Entries → Entries
  | [], es =>
    match find? leaf.name es with
    | some (.table .implied sub) => sub
    | _ => []
  | k :: ks, es =>
    match find? k.name es with
    | some (.table _ sub) => implied leaf ks sub
    | some (.tables elements) =>
      match elements.getLast? with
      | some (.table _ sub) => implied leaf ks sub
      | _ => []
    | _ => []

end Entries

/-! ## Lines beside other entries -/

section
variable {as es : Entries}

theorem contains_append_of_notMem {name : String} (h : name ∉ names as) (es : Entries) :
    contains name (as ++ es) = contains name es := by
  unfold contains
  rw [find?_append, find?_eq_none_iff.mpr h, Option.none_or]

theorem addPair_append {leaf : Key} {ks : List Key} (n : Node) (h : (ks.headD leaf).name ∉ names as) :
    addPair leaf n ks (as ++ es) = (addPair leaf n ks es).map (as ++ ·) := by
  have hfind {name : String} (h : name ∉ names as) : find? name (as ++ es) = find? name es := by
    rw [find?_append, find?_eq_none_iff.mpr h, Option.none_or]
  have hreplace {name : String} (h : name ∉ names as) (m : Node) :
      replace name m (as ++ es) = as ++ replace name m es := by
    rw [replace_append, replace_of_notMem h]
  rcases ks with _ | ⟨k, _ | ⟨next, ks⟩⟩
  · replace h : leaf.name ∉ names as := h
    rw [addPair, addPair, contains_append_of_notMem h]
    split
    · rfl
    · rw [List.append_assoc]; rfl
  · replace h : k.name ∉ names as := h
    simp only [addPair, hfind h, hreplace h, List.append_assoc]
    split
    · rfl
    · split <;> rfl
    · rfl
  · replace h : k.name ∉ names as := h
    simp only [addPair, hfind h, hreplace h, List.append_assoc]
    split
    · rw [Option.map_map]; rfl
    · rw [Option.map_map]; rfl
    · rw [Option.map_map]; rfl
    · split
      · rw [Option.map_map]; rfl
      · rfl
    · rfl

theorem addPairs_beside {ps : List Pair} (h : ∀ p ∈ ps, p.path.first.name ∉ names as) (es : Entries) :
    addPairs (as ++ es) ps = (addPairs es ps).map (as ++ ·) := by
  induction ps generalizing es with
  | nil => rfl
  | cons p ps ih =>
    rw [addPairs, addPairs, addPair_append p.value (h p List.mem_cons_self)]
    cases addPair p.path.leaf p.value p.path.parents es with
    | none => rfl
    | some es₁ => exact ih (fun q hq => h q (List.mem_cons_of_mem p hq)) es₁

end

/-! ## The same lines, written in another way -/

theorem addHeaded_congr {s : Headed} {ps : List Pair} (place : Nat) {ks : List Key} {es : Entries}
    (h₀ : addPairs [] ps = addPairs [] s.pairs)
    (h : addPairs (implied s.path.leaf ks es) ps = addPairs (implied s.path.leaf ks es) s.pairs) :
    addHeaded { s with pairs := ps } place ks es = addHeaded s place ks es := by
  induction ks generalizing es with
  | nil =>
    simp only [addHeaded, openTable, h₀]
    rw [implied] at h
    split
    · rfl
    · split
      · rfl
      · rename_i hf
        rw [hf] at h
        simp only at h
        rw [h]
      · rfl
  | cons k ks ih =>
    rw [addHeaded, addHeaded]
    rw [implied] at h
    have hnone : addHeaded { s with pairs := ps } place ks [] = addHeaded s place ks [] := by
      refine ih ?_
      have hi : implied s.path.leaf ks [] = [] := by cases ks <;> rfl
      rw [hi]
      exact h₀
    split
    · rw [hnone]
    · rfl
    · rename_i hf
      rw [hf] at h
      rw [ih h]
    · rename_i hf
      rw [hf] at h
      simp only at h
      split
      · rename_i hl
        rw [hl] at h
        rw [ih h]
      · rfl
    · rfl

/-! ## Sections under other names -/

section
variable {s : Headed} {place : Nat} {chosen : String → Bool}

theorem implied_only (h : chosen s.path.first.name = true) (es : Entries) :
    implied s.path.leaf s.path.parents (only chosen es) = implied s.path.leaf s.path.parents es := by
  unfold KeyPath.first at h
  rcases hp : s.path.parents with _ | ⟨k, ks⟩ <;> rw [hp] at h
  · replace h : chosen s.path.leaf.name = true := h
    rw [implied, implied, find?_only h]
  · replace h : chosen k.name = true := h
    rw [implied, implied, find?_only h]

theorem only_append_single {k : Key} (h : chosen k.name = true) (n : Node) (es : Entries) :
    only chosen (es ++ [(k, n)]) = only chosen es ++ [(k, n)] := by
  rw [only_append]
  congr 1
  exact List.filter_cons_of_pos h

theorem only_append_single_of_not {k : Key} (h : chosen k.name = false) (n : Node) (es : Entries) :
    only chosen (es ++ [(k, n)]) = only chosen es := by
  rw [only_append]
  refine (congrArg _ (List.filter_cons_of_neg ?_)).trans (List.append_nil _)
  simp [h]

theorem addHeaded_only (h : chosen s.path.first.name = true) (es : Entries) :
    addHeaded s place s.path.parents (only chosen es) = (addHeaded s place s.path.parents es).map (only chosen) := by
  unfold KeyPath.first at h
  rcases hp : s.path.parents with _ | ⟨k, ks⟩ <;> rw [hp] at h
  · replace h : chosen s.path.leaf.name = true := h
    simp only [addHeaded, openTable, find?_only h]
    split
    · split
      · simp [Option.map_map, Function.comp_def, only_append_single h]
      · simp [Option.map_map, Function.comp_def, only_replace]
      · rfl
    · split
      · simp [Option.map_map, Function.comp_def, only_append_single h]
      · simp [Option.map_map, Function.comp_def, only_append_single h, only_erase]
      · rfl
  · replace h : chosen k.name = true := h
    simp only [addHeaded, find?_only h]
    split
    · simp [Option.map_map, Function.comp_def, only_append_single h]
    · rfl
    · simp [Option.map_map, Function.comp_def, only_replace]
    · split
      · simp [Option.map_map, Function.comp_def, only_replace]
      · rfl
    · rfl

theorem addHeaded_only_of_not (h : chosen s.path.first.name = false) {es es' : Entries}
    (ha : addHeaded s place s.path.parents es = some es') : only chosen es' = only chosen es := by
  unfold KeyPath.first at h
  rcases hp : s.path.parents with _ | ⟨k, ks⟩ <;> rw [hp] at h ha
  · replace h : chosen s.path.leaf.name = false := h
    simp only [addHeaded, openTable] at ha
    split at ha
    · split at ha
      · obtain ⟨sub, -, rfl⟩ := Option.map_eq_some_iff.mp ha
        exact only_append_single_of_not h _ es
      · obtain ⟨sub, -, rfl⟩ := Option.map_eq_some_iff.mp ha
        exact only_replace_of_not h _ es
      · cases ha
    · split at ha
      · obtain ⟨sub, -, rfl⟩ := Option.map_eq_some_iff.mp ha
        exact only_append_single_of_not h _ es
      · obtain ⟨sub, -, rfl⟩ := Option.map_eq_some_iff.mp ha
        rw [only_append_single_of_not h, only_erase_of_not h]
      · cases ha
  · replace h : chosen k.name = false := h
    rw [addHeaded] at ha
    split at ha
    · obtain ⟨sub, -, rfl⟩ := Option.map_eq_some_iff.mp ha
      exact only_append_single_of_not h _ es
    · cases ha
    · obtain ⟨sub, -, rfl⟩ := Option.map_eq_some_iff.mp ha
      exact only_replace_of_not h _ es
    · split at ha
      · obtain ⟨sub, -, rfl⟩ := Option.map_eq_some_iff.mp ha
        exact only_replace_of_not h _ es
      · cases ha
    · cases ha

end

end Broadcast.Toml
