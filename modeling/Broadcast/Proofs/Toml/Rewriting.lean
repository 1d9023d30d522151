import Broadcast.Proofs.Toml.Entries

/-!
# Documents written in another way

Which lines and headers fit together is a matter of their names and of how tables
came to be. So whoever writes a tree anew and keeps these builds, from lines that
are written anew in the same way, the tree that is.
-/

namespace Broadcast.Toml

open Entries

/-- A way to write a tree anew that keeps the names and the kinds of the nodes and tables. -/
structure Rewriting where
  key : Key → Key
  form : Form → Form
  node : Node → Node
  name_key : ∀ k, (key k).name = k.name
  form_inline : ∀ comma tail m, ∃ comma' tail' m', form (.inline comma tail m) = .inline comma' tail' m'
  form_dotted : form .dotted = .dotted
  form_implied : form .implied = .implied
  form_header : ∀ place m, ∃ place' m', form (.header place m) = .header place' m'
  node_scalar : ∀ v t m, ∃ v' t' m', node (.scalar v t m) = .scalar v' t' m'
  node_array : ∀ ns comma tail m, ∃ ns' comma' tail' m', node (.array ns comma tail m) = .array ns' comma' tail' m'
  node_table : ∀ f es, node (.table f es) = .table (form f) (es.map fun e => (key e.1, node e.2))
  node_tables : ∀ ns, node (.tables ns) = .tables (ns.map node)

namespace Rewriting

def entries (r : Rewriting) (es : Entries) : Entries := es.map fun e => (r.key e.1, r.node e.2)

def path (r : Rewriting) (p : KeyPath) : KeyPath := ⟨p.parents.map r.key, r.key p.leaf⟩

def pair (r : Rewriting) (p : Pair) : Pair := ⟨r.path p.path, r.node p.value⟩

def same : Rewriting where
  key := id
  form := id
  node := id
  name_key _ := rfl
  form_inline _ _ _ := ⟨_, _, _, rfl⟩
  form_dotted := rfl
  form_implied := rfl
  form_header _ _ := ⟨_, _, rfl⟩
  node_scalar _ _ _ := ⟨_, _, _, rfl⟩
  node_array _ _ _ _ := ⟨_, _, _, _, rfl⟩
  node_table f es := congrArg (Node.table f) (List.map_id es).symm
  node_tables ns := congrArg Node.tables (List.map_id ns).symm

theorem entries_same (es : Entries) : same.entries es = es := List.map_id es

variable (r : Rewriting)

theorem entries_append (as bs : Entries) : r.entries (as ++ bs) = r.entries as ++ r.entries bs := List.map_append

theorem entries_concat (es : Entries) (k : Key) (n : Node) :
    r.entries (es ++ [(k, n)]) = r.entries es ++ [(r.key k, r.node n)] := r.entries_append es _

/-! ## Looking up -/

theorem find?_entries (name : String) (es : Entries) : find? name (r.entries es) = (find? name es).map r.node := by
  have hname : (fun e : Key × Node => e.1.name == name) ∘ (fun e : Key × Node => (r.key e.1, r.node e.2)) =
      fun e => e.1.name == name :=
    funext fun e => congrArg (· == name) (r.name_key e.1)
  unfold find? entries
  rw [List.find?_map, hname, Option.map_map, Option.map_map]
  rfl

theorem find?_key (k : Key) (es : Entries) : find? (r.key k).name (r.entries es) = (find? k.name es).map r.node := by
  rw [r.name_key, r.find?_entries]

theorem contains_entries (name : String) (es : Entries) : contains name (r.entries es) = contains name es := by
  unfold contains
  rw [r.find?_entries, Option.isSome_map]

theorem replace_entries (name : String) (n : Node) (es : Entries) :
    replace name (r.node n) (r.entries es) = r.entries (replace name n es) := by
  unfold replace entries
  rw [List.map_map, List.map_map]
  refine List.map_congr_left fun e _ => ?_
  simp only [Function.comp_apply, r.name_key]
  split <;> rfl

theorem erase_entries (name : String) (es : Entries) : erase name (r.entries es) = r.entries (erase name es) := by
  unfold erase entries
  rw [List.filter_map]
  refine congrArg (List.map _) (congrArg (List.filter · es) (funext fun e => ?_))
  simp only [Function.comp_apply, r.name_key]

theorem only_entries (chosen : String → Bool) (es : Entries) :
    only chosen (r.entries es) = r.entries (only chosen es) := by
  unfold only entries
  rw [List.filter_map]
  refine congrArg (List.map _) (congrArg (List.filter · es) (funext fun e => ?_))
  simp only [Function.comp_apply, r.name_key]

/-! ## Tables that change inside -/

theorem map_append_table (k : Key) (form : Form) (es : Entries) (o : Option Entries) :
    (o.map fun sub => es ++ [(k, .table form sub)]).map r.entries =
      (o.map r.entries).map fun sub => r.entries es ++ [(r.key k, .table (r.form form) sub)] := by
  cases o with
  | none => rfl
  | some sub => exact congrArg some ((r.entries_concat es k _).trans (by rw [r.node_table]; rfl))

theorem map_replace_table (name : String) (form : Form) (es : Entries) (o : Option Entries) :
    (o.map fun sub => replace name (.table form sub) es).map r.entries =
      (o.map r.entries).map fun sub => replace name (.table (r.form form) sub) (r.entries es) := by
  cases o with
  | none => rfl
  | some sub => exact congrArg some ((r.replace_entries name _ es).symm.trans (by rw [r.node_table]; rfl))

theorem map_replace_last (name : String) (form : Form) (ns : List Node) (es : Entries) (o : Option Entries) :
    (o.map fun sub => replace name (.tables (ns ++ [.table form sub])) es).map r.entries =
      (o.map r.entries).map fun sub =>
        replace name (.tables (ns.map r.node ++ [.table (r.form form) sub])) (r.entries es) := by
  cases o with
  | none => rfl
  | some sub =>
    refine congrArg some ((r.replace_entries name _ es).symm.trans ?_)
    rw [r.node_tables, List.map_append, List.map_cons, List.map_nil, r.node_table]
    rfl

/-! ## Lines -/

theorem addPair_entries (leaf : Key) (n : Node) (ks : List Key) (es : Entries) :
    addPair (r.key leaf) (r.node n) (ks.map r.key) (r.entries es) = (addPair leaf n ks es).map r.entries := by
  induction ks generalizing es with
  | nil =>
    simp only [List.map_nil, addPair, r.name_key, r.contains_entries]
    split
    · rfl
    · rw [Option.map_some, r.entries_concat]
  | cons k ks ih =>
    rcases ks with _ | ⟨next, ks⟩
    · simp only [List.map_cons, List.map_nil, addPair, r.find?_key]
      rcases find? k.name es with _ | (⟨v, t, m⟩ | ⟨ns, comma, tail, m⟩ | ⟨form, sub⟩ | ns)
      · rw [Option.map_none, Option.map_some, r.entries_concat, r.node_table, r.form_dotted]
        rfl
      · obtain ⟨v', t', m', hn⟩ := r.node_scalar v t m
        simp only [Option.map_some, hn, Option.map_none]
      · obtain ⟨ns', comma', tail', m', hn⟩ := r.node_array ns comma tail m
        simp only [Option.map_some, hn, Option.map_none]
      · simp only [Option.map_some, r.node_table]
        cases form with
        | inline comma tail m =>
          obtain ⟨_, _, _, hf⟩ := r.form_inline comma tail m
          simp only [hf, Option.map_none]
        | dotted =>
          have hsub : (sub.map fun e => (r.key e.1, r.node e.2)) = r.entries sub := rfl
          simp only [r.form_dotted, hsub, r.name_key, r.contains_entries]
          split
          · rfl
          · rw [Option.map_some, ← r.replace_entries, r.node_table, r.form_dotted, ← r.entries_concat]
            rfl
        | implied => simp only [r.form_implied, Option.map_none]
        | header place m =>
          obtain ⟨_, _, hf⟩ := r.form_header place m
          simp only [hf, Option.map_none]
      · simp only [Option.map_some, r.node_tables, Option.map_none]
    · rw [List.map_cons] at ih
      simp only [List.map_cons, addPair, r.find?_key]
      rcases find? k.name es with _ | (⟨v, t, m⟩ | ⟨ns, comma, tail, m⟩ | ⟨form, sub⟩ | ns)
      · rw [Option.map_none, r.map_append_table, ← ih [], r.form_dotted]
        rfl
      · obtain ⟨v', t', m', hn⟩ := r.node_scalar v t m
        simp only [Option.map_some, hn, Option.map_none]
      · obtain ⟨ns', comma', tail', m', hn⟩ := r.node_array ns comma tail m
        simp only [Option.map_some, hn, Option.map_none]
      · simp only [Option.map_some, r.node_table]
        cases form with
        | inline comma tail m =>
          obtain ⟨_, _, _, hf⟩ := r.form_inline comma tail m
          simp only [hf, Option.map_none]
        | dotted =>
          simp only [r.form_dotted]
          rw [r.map_replace_table, ← ih sub, r.form_dotted, r.name_key]
          rfl
        | implied =>
          simp only [r.form_implied]
          rw [r.map_replace_table, ← ih sub, r.form_implied, r.name_key]
          rfl
        | header place m =>
          obtain ⟨_, _, hf⟩ := r.form_header place m
          simp only [hf, Option.map_none]
      · simp only [Option.map_some, r.node_tables, List.getLast?_map]
        rcases ns.getLast? with _ | (⟨v, t, m⟩ | ⟨ns', comma, tail, m⟩ | ⟨form, sub⟩ | ns')
        · rfl
        · obtain ⟨v', t', m', hn⟩ := r.node_scalar v t m
          simp only [Option.map_some, hn, Option.map_none]
        · obtain ⟨_, _, _, _, hn⟩ := r.node_array ns' comma tail m
          simp only [Option.map_some, hn, Option.map_none]
        · simp only [Option.map_some, r.node_table]
          rw [r.map_replace_last, ← ih sub, r.name_key, List.map_dropLast]
          rfl
        · simp only [Option.map_some, r.node_tables, Option.map_none]

theorem addPairs_entries (ps : List Pair) : ∀ es,
    addPairs (r.entries es) (ps.map r.pair) = (addPairs es ps).map r.entries := by
  induction ps with
  | nil => intro es; rfl
  | cons p ps ih =>
    intro es
    have hp := r.addPair_entries p.path.leaf p.value p.path.parents es
    rw [List.map_cons, addPairs, addPairs]
    show (addPair (r.key p.path.leaf) (r.node p.value) (p.path.parents.map r.key) (r.entries es)).bind _ = _
    rw [hp]
    cases addPair p.path.leaf p.value p.path.parents es with
    | none => rfl
    | some es₁ => exact ih es₁

theorem addPairs_nil (ps : List Pair) : addPairs [] (ps.map r.pair) = (addPairs [] ps).map r.entries :=
  r.addPairs_entries ps []

/-! ## Headers -/

structure IsOf (s s' : Headed) : Prop where
  array : s'.array = s.array
  path : s'.path = r.path s.path
  pairs : s'.pairs = s.pairs.map r.pair

/-- Another way to write trees that makes no difference between the headers of two sections. -/
def Blurs (s s' : Headed) (i j : Nat) (q : Rewriting) : Prop :=
  q.form (.header (some j) (some s'.margin)) = q.form (r.form (.header (some i) (some s.margin)))

variable {r} {q : Rewriting} {s s' : Headed} {i j : Nat}

theorem openTable_entries (h : r.IsOf s s') (hq : r.Blurs s s' i j q) (es : Entries) :
    (openTable s' j (r.entries es)).map q.entries = ((openTable s i es).map r.entries).map q.entries := by
  have hnode (own : Entries) : q.node (.table (.header (some j) (some s'.margin)) (r.entries own)) =
      q.node (r.node (.table (.header (some i) (some s.margin)) own)) := by
    rw [r.node_table, q.node_table, q.node_table, hq]
    rfl
  have hname : s'.path.leaf.name = s.path.leaf.name := by
    rw [h.path]
    exact r.name_key s.path.leaf
  have hleaf : s'.path.leaf = r.key s.path.leaf := by
    rw [h.path]
    rfl
  have htable (as own : Entries) :
      q.entries (r.entries as ++ [(s'.path.leaf, .table (.header (some j) (some s'.margin)) (r.entries own))]) =
        q.entries (r.entries (as ++ [(s.path.leaf, .table (.header (some i) (some s.margin)) own)])) := by
    rw [r.entries_concat, q.entries_concat, q.entries_concat, hnode, hleaf]
  unfold openTable
  rw [h.array, h.pairs, r.addPairs_nil, hname, r.find?_entries]
  cases s.array with
  | true =>
    simp only [ite_true]
    rcases find? s.path.leaf.name es with _ | (⟨v, t, m⟩ | ⟨ns, comma, tail, m⟩ | ⟨form, sub⟩ | ns)
    · cases addPairs [] s.pairs with
      | none => rfl
      | some own =>
        simp only [Option.map_none, Option.map_some, r.entries_concat, q.entries_concat, r.node_tables, q.node_tables,
          List.map_cons, List.map_nil, hnode, hleaf]
    · obtain ⟨_, _, _, hn⟩ := r.node_scalar v t m
      simp only [Option.map_some, hn, Option.map_none]
    · obtain ⟨_, _, _, _, hn⟩ := r.node_array ns comma tail m
      simp only [Option.map_some, hn, Option.map_none]
    · simp only [Option.map_some, r.node_table, Option.map_none]
    · simp only [Option.map_some, r.node_tables]
      cases addPairs [] s.pairs with
      | none => rfl
      | some own =>
        simp only [Option.map_some, ← r.replace_entries, ← q.replace_entries, r.node_tables, q.node_tables,
          List.map_append, List.map_cons, List.map_nil, hnode]
  | false =>
    simp only [Bool.false_eq_true, ite_false]
    rcases find? s.path.leaf.name es with _ | (⟨v, t, m⟩ | ⟨ns, comma, tail, m⟩ | ⟨form, sub⟩ | ns)
    · cases addPairs [] s.pairs with
      | none => rfl
      | some own => simp only [Option.map_none, Option.map_some, htable]
    · obtain ⟨_, _, _, hn⟩ := r.node_scalar v t m
      simp only [Option.map_some, hn, Option.map_none]
    · obtain ⟨_, _, _, _, hn⟩ := r.node_array ns comma tail m
      simp only [Option.map_some, hn, Option.map_none]
    · simp only [Option.map_some, r.node_table]
      cases form with
      | inline comma tail m =>
        obtain ⟨_, _, _, hf⟩ := r.form_inline comma tail m
        simp only [hf, Option.map_none]
      | dotted => simp only [r.form_dotted, Option.map_none]
      | implied =>
        have hsub : addPairs (sub.map fun e => (r.key e.1, r.node e.2)) (s.pairs.map r.pair) =
            (addPairs sub s.pairs).map r.entries := r.addPairs_entries s.pairs sub
        simp only [r.form_implied, hsub, r.erase_entries]
        cases addPairs sub s.pairs with
        | none => rfl
        | some own => simp only [Option.map_some, htable]
      | header place m =>
        obtain ⟨_, _, hf⟩ := r.form_header place m
        simp only [hf, Option.map_none]
    · simp only [Option.map_some, r.node_tables, Option.map_none]

/-- **A section that is written anew grows the tree written anew**, as far as its header can be told. -/
theorem addHeaded_entries (h : r.IsOf s s') (hq : r.Blurs s s' i j q) (ks : List Key) (es : Entries) :
    (addHeaded s' j (ks.map r.key) (r.entries es)).map q.entries =
      ((addHeaded s i ks es).map r.entries).map q.entries := by
  induction ks generalizing es with
  | nil => exact openTable_entries h hq es
  | cons k ks ih =>
    simp only [List.map_cons, addHeaded, r.name_key, r.find?_entries]
    rcases find? k.name es with _ | (⟨v, t, m⟩ | ⟨ns, comma, tail, m⟩ | ⟨form, sub⟩ | ns)
    · rw [Option.map_none, r.map_append_table, q.map_append_table, q.map_append_table, ← ih [], r.form_implied]
      rfl
    · obtain ⟨_, _, _, hn⟩ := r.node_scalar v t m
      simp only [Option.map_some, hn, Option.map_none]
    · obtain ⟨_, _, _, _, hn⟩ := r.node_array ns comma tail m
      simp only [Option.map_some, hn, Option.map_none]
    · simp only [Option.map_some, r.node_table]
      have hsub (f : Form) : ((addHeaded s' j (ks.map r.key) (r.entries sub)).map fun sub =>
          replace k.name (.table f sub) (r.entries es)).map q.entries =
            (((addHeaded s i ks sub).map r.entries).map fun sub => replace k.name (.table f sub) (r.entries es)).map
              q.entries := by
        rw [q.map_replace_table, q.map_replace_table, ih sub]
      cases form with
      | inline comma tail m =>
        obtain ⟨_, _, _, hf⟩ := r.form_inline comma tail m
        simp only [hf, Option.map_none]
      | dotted =>
        rw [r.map_replace_table, r.form_dotted]
        exact hsub .dotted
      | implied =>
        rw [r.map_replace_table, r.form_implied]
        exact hsub .implied
      | header place m =>
        obtain ⟨_, _, hf⟩ := r.form_header place m
        rw [r.map_replace_table, hf]
        exact hsub _
    · simp only [Option.map_some, r.node_tables, List.getLast?_map]
      rcases ns.getLast? with _ | (⟨v, t, m⟩ | ⟨ns', comma, tail, m⟩ | ⟨form, sub⟩ | ns')
      · rfl
      · obtain ⟨_, _, _, hn⟩ := r.node_scalar v t m
        simp only [Option.map_some, hn, Option.map_none]
      · obtain ⟨_, _, _, _, hn⟩ := r.node_array ns' comma tail m
        simp only [Option.map_some, hn, Option.map_none]
      · simp only [Option.map_some, r.node_table]
        rw [r.map_replace_last, q.map_replace_last, List.map_dropLast, List.map_dropLast, q.map_replace_last, ← ih sub,
          List.map_dropLast]
        rfl
      · simp only [Option.map_some, r.node_tables, Option.map_none]

end Rewriting

end Broadcast.Toml
