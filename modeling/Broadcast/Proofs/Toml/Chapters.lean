import Broadcast.Proofs.Toml.Headers

/-!
# The chapters of a document

Every table with a header of its own is a chapter: the header with the lines of
the table. Each section that is read adds one chapter and leaves the others as
they are, though a key on their paths may get another spelling. So a document
has just the chapters it was read from.
-/

namespace Broadcast.Toml

open Entries

def under (k : Key) (c : Nat × Headed) : Nat × Headed :=
  (c.1, { c.2 with path := ⟨k :: c.2.path.parents, c.2.path.leaf⟩ })

def Form.chapter (array : Bool) (k : Key) (lines : List Pair) : Form → List (Nat × Headed)
  | .header (some place) (some margin) => [(place, ⟨array, ⟨[], k⟩, margin, lines⟩)]
  | _ => []

def Form.isInline : Form → Bool
  | .inline .. => true
  | _ => false

mutual
def chapters : List (Key × Node) → List (Nat × Headed)
  | [] => []
  | (k, n) :: es => n.chapters false k ++ chapters es
def Node.chapters (array : Bool) (k : Key) : Node → List (Nat × Headed)
  | .table form es =>
    if form.isInline then [] else form.chapter array k (ownLines es) ++ (Toml.chapters es).map (under k)
  | .tables elements => elementChapters k elements
  | _ => []
def elementChapters (k : Key) : List Node → List (Nat × Headed)
  | [] => []
  | n :: ns => n.chapters true k ++ elementChapters k ns
end

theorem chapters_append (as bs : Entries) : chapters (as ++ bs) = chapters as ++ chapters bs := by
  induction as with
  | nil => rfl
  | cons e as ih => rw [List.cons_append, ← Prod.eta e, chapters, ih, chapters, List.append_assoc]

theorem chapters_append_cons (as : Entries) (k : Key) (n : Node) (bs : Entries) :
    chapters (as ++ (k, n) :: bs) = chapters as ++ (n.chapters false k ++ chapters bs) := by
  rw [chapters_append, chapters]

theorem elementChapters_append (k : Key) (as bs : List Node) :
    elementChapters k (as ++ bs) = elementChapters k as ++ elementChapters k bs := by
  induction as with
  | nil => rfl
  | cons n as ih => rw [List.cons_append, elementChapters, ih, elementChapters, List.append_assoc]

theorem mem_chapters {c : Nat × Headed} {es : Entries} : c ∈ chapters es ↔ ∃ e ∈ es, c ∈ e.2.chapters false e.1 := by
  induction es with
  | nil => simp [chapters]
  | cons e es ih => rw [← Prod.eta e, chapters, List.mem_append, ih]; simp

/-! ## Opening a table -/

/-- What a section does to a tree: the tables on its way are found or made, and at its
end there is a new table with the section's own entries, or one that was implied so far
has them behind its own. -/
inductive Opened (s : Headed) (form : Form) (own : Entries) : List Key → Entries → Entries → Prop
  | table {es : Entries} : s.array = false → s.path.leaf.name ∉ names es →
      Opened s form own [] es (es ++ [(s.path.leaf, .table form own)])
  | array {es : Entries} : s.array = true → s.path.leaf.name ∉ names es →
      Opened s form own [] es (es ++ [(s.path.leaf, .tables [.table form own])])
  | element {k : Key} {as bs : Entries} {elements : List Node} : s.array = true → k.name = s.path.leaf.name →
      Opened s form own [] (as ++ (k, .tables elements) :: bs)
        (as ++ (k, .tables (elements ++ [.table form own])) :: bs)
  | claimed {k : Key} {as bs sub : Entries} : s.array = false → k.name = s.path.leaf.name → ownLines sub = [] →
      (∀ name ∈ names own, name ∉ names sub) →
      Opened s form own [] (as ++ (k, .table .implied sub) :: bs)
        (as ++ bs ++ [(s.path.leaf, .table form (sub ++ own))])
  | made {k : Key} {ks : List Key} {es sub : Entries} : k.name ∉ names es → Opened s form own ks [] sub →
      Opened s form own (k :: ks) es (es ++ [(k, .table .implied sub)])
  | found {k k' : Key} {f : Form} {ks : List Key} {as bs sub sub' : Entries} : k'.name = k.name → f.isInline = false →
      Opened s form own ks sub sub' →
      Opened s form own (k :: ks) (as ++ (k', .table f sub) :: bs) (as ++ (k', .table f sub') :: bs)
  | last {k k' : Key} {f : Form} {elements : List Node} {ks : List Key} {as bs sub sub' : Entries} : k'.name = k.name →
      f.isInline = false → Opened s form own ks sub sub' →
      Opened s form own (k :: ks) (as ++ (k', .tables (elements ++ [.table f sub])) :: bs)
        (as ++ (k', .tables (elements ++ [.table f sub'])) :: bs)

/-- The trees that sections grow. `line` says which keys stand before which values, `inner` and
`title` which keys lead to tables without and with a header of their own. -/
inductive Grown (line : Key → Node → Prop) (inner title : Key → Prop) : Key × Node → Prop
  | value {k : Key} {n : Node} : n.isValue = true → line k n → Grown line inner title (k, n)
  | dotted {k : Key} {sub : Entries} : inner k → (names sub).Nodup → (∀ e ∈ sub, Grown line inner title e) →
      Grown line inner title (k, .table .dotted sub)
  | implied {k : Key} {sub : Entries} : inner k → ownLines sub = [] → (names sub).Nodup →
      (∀ e ∈ sub, Grown line inner title e) → Grown line inner title (k, .table .implied sub)
  | header {k : Key} {place : Nat} {margin : Margin} {sub : Entries} : title k → (names sub).Nodup →
      (∀ e ∈ sub, Grown line inner title e) →
        Grown line inner title (k, .table (.header (some place) (some margin)) sub)
  | tables {k : Key} {elements : List (Nat × Margin × Entries)} : title k → (∀ n ∈ elements, (names n.2.2).Nodup) →
      (∀ n ∈ elements, ∀ e ∈ n.2.2, Grown line inner title e) →
      Grown line inner title (k, .tables (elements.map fun n => .table (.header (some n.1) (some n.2.1)) n.2.2))

structure Forest (line : Key → Node → Prop) (inner title : Key → Prop) (es : Entries) : Prop where
  distinct : (names es).Nodup
  entries : ∀ e ∈ es, Grown line inner title e

variable {line : Key → Node → Prop} {inner title : Key → Prop} {s : Headed} {form : Form} {own es es' : Entries}
  {ks : List Key}

theorem OwnEntry.grown {e : Key × Node} (h : OwnEntry line inner e) : Grown line inner title e := by
  induction h with
  | value hv hl => exact .value hv hl
  | dotted hk _ hd _ ih => exact .dotted hk hd ih

theorem Own.forest (h : Own line inner es) : Forest line inner title es :=
  ⟨h.distinct, fun e he => (h.entries e he).grown⟩

theorem Grown.tables_concat {k : Key} (elements : List (Nat × Margin × Entries)) (hk : title k)
    (hall : ∀ n ∈ elements, Forest line inner title n.2.2) (place : Nat) (margin : Margin) {sub : Entries}
    (hsub : Forest line inner title sub) :
    Grown line inner title (k, .tables (elements.map (fun n => .table (.header (some n.1) (some n.2.1)) n.2.2) ++
      [.table (.header (some place) (some margin)) sub])) := by
  have hall : ∀ n ∈ elements ++ [(place, margin, sub)], Forest line inner title n.2.2 :=
    List.forall_mem_append.mpr ⟨hall, List.forall_mem_singleton.mpr hsub⟩
  have hnew := Grown.tables hk (fun n hn => (hall n hn).distinct) (fun n hn => (hall n hn).entries)
  rw [List.map_append] at hnew
  exact hnew

theorem Forest.nil : Forest line inner title [] := ⟨.nil, by simp⟩

theorem Forest.of_find? {name : String} {n : Node} (h : Forest line inner title es) (hf : find? name es = some n) :
    n.isValue = true ∨ (∃ f sub, n = .table f sub ∧ f.isInline = false ∧ Forest line inner title sub) ∨
      ∃ elements : List (Nat × Margin × Entries),
        n = .tables (elements.map fun n => .table (.header (some n.1) (some n.2.1)) n.2.2) ∧
          ∀ n ∈ elements, Forest line inner title n.2.2 := by
  obtain ⟨as, k, bs, rfl, -⟩ := split hf h.distinct
  have he := h.entries (k, n) (List.mem_append_right as List.mem_cons_self)
  cases he with
  | value hv => exact .inl hv
  | dotted _ hd hes => exact .inr (.inl ⟨_, _, rfl, rfl, hd, hes⟩)
  | implied _ _ hd hes => exact .inr (.inl ⟨_, _, rfl, rfl, hd, hes⟩)
  | header _ hd hes => exact .inr (.inl ⟨_, _, rfl, rfl, hd, hes⟩)
  | @tables k elements _ hd hes => exact .inr (.inr ⟨elements, rfl, fun n hn => ⟨hd n hn, hes n hn⟩⟩)

theorem name_of_addPairs {ps : List Pair} (hps : ∀ p ∈ ps, p.value.isValue = true) (h : addPairs [] ps = some own) :
    ∀ name ∈ names own, ∃ p ∈ ps, p.path.first.name = name := by
  have hfits : ∀ p ∈ ps, p.Fits (fun _ _ => True) fun _ => True := fun p hp => ⟨hps p hp, trivial, fun _ _ => trivial⟩
  obtain ⟨hown, hperm⟩ := own_of_addPairs hfits .nil h
  rintro name hname
  obtain ⟨e, he, rfl⟩ := List.mem_map.mp hname
  obtain ⟨p, rest, hp⟩ := List.exists_cons_of_ne_nil (hown.entries e he).ownLines_ne_nil
  have hpe : p ∈ e.2.ownLines e.1 := by rw [hp]; exact List.mem_cons_self
  have hcore : p.core ∈ (ownLines own).map Pair.core := List.mem_map_of_mem (mem_ownLines.mpr ⟨e, he, hpe⟩)
  obtain ⟨q, hq, hqp⟩ := List.mem_map.mp (hperm.mem_iff.mp hcore)
  have hfirst : q.path.first.core = p.path.first.core := by
    rw [← KeyPath.first_core, ← KeyPath.first_core]
    exact congrArg (fun p : Pair => p.path.first) hqp
  refine ⟨q, hq, ?_⟩
  rw [← first_of_mem_ownLines hpe]
  have hname := congrArg Key.name hfirst
  exact hname

theorem opened_of_openTable {place : Nat} (hes : Forest line inner title es)
    (hps : ∀ p ∈ s.pairs, p.value.isValue = true)
    (hapart : ∀ p ∈ s.pairs, p.path.first.name ∉ names (implied s.path.leaf [] es))
    (h : openTable s place es = some es') :
    ∃ own, addPairs [] s.pairs = some own ∧ Opened s (.header (some place) (some s.margin)) own [] es es' := by
  rw [implied] at hapart
  rw [openTable] at h
  split at h
  · rename_i harray
    split at h
    · rename_i hf
      obtain ⟨own, hown, rfl⟩ := Option.map_eq_some_iff.mp h
      exact ⟨own, hown, .array harray (find?_eq_none_iff.mp hf)⟩
    · rename_i elements hf
      obtain ⟨own, hown, rfl⟩ := Option.map_eq_some_iff.mp h
      obtain ⟨as, k, bs, rfl, hk, hr, -⟩ := split hf hes.distinct
      rw [hr]
      exact ⟨own, hown, .element harray hk⟩
    · cases h
  · rename_i harray
    replace harray := Bool.eq_false_iff.mpr harray
    split at h
    · rename_i hf
      obtain ⟨own, hown, rfl⟩ := Option.map_eq_some_iff.mp h
      exact ⟨own, hown, .table harray (find?_eq_none_iff.mp hf)⟩
    · rename_i sub hf
      rw [hf] at hapart
      obtain ⟨sub', hsub, rfl⟩ := Option.map_eq_some_iff.mp h
      have hbeside := addPairs_beside hapart []
      rw [List.append_nil, hsub] at hbeside
      obtain ⟨own, hown, rfl⟩ := Option.map_eq_some_iff.mp hbeside.symm
      obtain ⟨as, k, bs, rfl, hk, -, hr⟩ := split hf hes.distinct
      rw [hr]
      have hlines : ownLines sub = [] := by
        have he := hes.entries (k, .table .implied sub) (List.mem_append_right as List.mem_cons_self)
        cases he with
        | value hv => cases hv
        | implied _ hl => exact hl
      refine ⟨own, hown, .claimed harray hk hlines fun name hname => ?_⟩
      obtain ⟨p, hp, rfl⟩ := name_of_addPairs hps hown name hname
      exact hapart p hp
    · cases h

theorem opened_of_addHeaded {place : Nat} (hes : Forest line inner title es)
    (hps : ∀ p ∈ s.pairs, p.value.isValue = true)
    (hapart : ∀ p ∈ s.pairs, p.path.first.name ∉ names (implied s.path.leaf ks es))
    (h : addHeaded s place ks es = some es') :
    ∃ own, addPairs [] s.pairs = some own ∧ Opened s (.header (some place) (some s.margin)) own ks es es' := by
  induction ks generalizing es es' with
  | nil =>
    rw [addHeaded] at h
    exact opened_of_openTable hes hps hapart h
  | cons k ks ih =>
    rw [implied] at hapart
    rw [addHeaded] at h
    split at h
    · rename_i hf
      obtain ⟨sub, hsub, rfl⟩ := Option.map_eq_some_iff.mp h
      have hi : implied s.path.leaf ks [] = [] := by cases ks <;> rfl
      obtain ⟨own, hown, ho⟩ := ih .nil (by rw [hi]; exact fun p _ => List.not_mem_nil) hsub
      exact ⟨own, hown, .made (find?_eq_none_iff.mp hf) ho⟩
    · cases h
    · rename_i f sub hinline hf
      rw [hf] at hapart
      obtain ⟨sub', hsub, rfl⟩ := Option.map_eq_some_iff.mp h
      rcases hes.of_find? hf with hv | ⟨f, sub, he, hi, hforest⟩ | ⟨elements, he, -⟩
      · cases f with
        | inline => exact (hinline _ _ _ rfl).elim
        | _ => cases hv
      · cases he
        obtain ⟨own, hown, ho⟩ := ih hforest hapart hsub
        obtain ⟨as, k', bs, rfl, hk, hr, -⟩ := split hf hes.distinct
        rw [hr]
        exact ⟨own, hown, .found hk hi ho⟩
      · cases he
    · rename_i elements hf
      rw [hf] at hapart
      simp only at hapart
      split at h
      · rename_i f sub hl
        rw [hl] at hapart
        obtain ⟨sub', hsub, rfl⟩ := Option.map_eq_some_iff.mp h
        rcases hes.of_find? hf with hv | ⟨f, sub, he, -⟩ | ⟨elements, he, hforest⟩
        · cases hv
        · cases he
        · cases he
          rcases List.eq_nil_or_concat elements with rfl | ⟨init, t, rfl⟩
          · cases hl
          · rw [List.concat_eq_append] at hforest hl hf ⊢
            rw [List.map_append, List.map_cons, List.map_nil] at hl hf ⊢
            rw [List.getLast?_concat] at hl
            cases hl
            obtain ⟨own, hown, ho⟩ := ih (hforest t (List.mem_append_right _ List.mem_cons_self)) hapart hsub
            obtain ⟨as, k', bs, rfl, hk, hr, -⟩ := split hf hes.distinct
            rw [List.dropLast_concat, hr]
            exact ⟨own, hown, .last hk rfl ho⟩
      · cases h
    · cases h

/-! ## What opening a table keeps -/

section
variable {place : Nat}

theorem Opened.ownLines_eq (h : Opened s (.header (some place) (some s.margin)) own ks es es') :
    ownLines es' = ownLines es := by
  have none_of {n : Node} (k : Key) (es : Entries) (hn : n.ownLines k = []) :
      ownLines (es ++ [(k, n)]) = ownLines es := by
    rw [ownLines_append_cons, hn]
    exact List.append_nil _
  induction h with
  | table => exact none_of _ _ rfl
  | array => exact none_of _ _ rfl
  | element => rw [ownLines_append_cons, ownLines_append_cons]; rfl
  | claimed => rw [none_of _ _ rfl, ownLines_append, ownLines_append_cons]; rfl
  | made => exact none_of _ _ rfl
  | @found k k' f ks as bs sub sub' hk hf hs ih =>
    rw [ownLines_append_cons, ownLines_append_cons]
    cases f with
    | inline => cases hf
    | dotted => rw [Node.ownLines, Node.ownLines, ih]
    | implied => rfl
    | header => rfl
  | last => rw [ownLines_append_cons, ownLines_append_cons]; rfl

theorem Opened.distinct (h : Opened s form own ks es es') (hd : (names es).Nodup) : (names es').Nodup := by
  cases h with
  | table _ hn => exact distinct_append hd hn _
  | array _ hn => exact distinct_append hd hn _
  | element => exact distinct_exchange hd _
  | @claimed k as bs sub _ hk =>
    rw [names_append, names_cons, List.nodup_middle, List.nodup_cons] at hd
    have hn : s.path.leaf.name ∉ names (as ++ bs) := by rw [names_append, ← hk]; exact hd.1
    exact distinct_append (by rw [names_append]; exact hd.2) hn _
  | made hn => exact distinct_append hd hn _
  | found => exact distinct_exchange hd _
  | last => exact distinct_exchange hd _

theorem Forest.opened (hes : Forest line inner title es) (hown : Own line inner own) (ht : title s.path.leaf)
    (hks : ∀ k ∈ ks, inner k) (h : Opened s (.header (some place) (some s.margin)) own ks es es') :
    Forest line inner title es' := by
  refine ⟨h.distinct hes.distinct, ?_⟩
  have hgrown : Forest line inner title own := hown.forest
  induction h with
  | table => exact forall_append_single hes.entries (.header ht hgrown.distinct hgrown.entries)
  | array =>
    exact forall_append_single hes.entries (.tables_concat [] ht (by simp) place s.margin hgrown)
  | @element k as bs elements _ hk =>
    have hold := hes.entries (k, .tables elements) (List.mem_append_right as List.mem_cons_self)
    refine forall_exchange hes.entries ?_
    cases hold with
    | value hv => cases hv
    | @tables _ elements hk' hd hsub =>
      exact .tables_concat elements hk' (fun n hn => ⟨hd n hn, hsub n hn⟩) place s.margin hgrown
  | @claimed k as bs sub _ hk _ hsub =>
    have hold := hes.entries (k, .table .implied sub) (List.mem_append_right as List.mem_cons_self)
    have hrest : ∀ e ∈ as ++ bs, Grown line inner title e := fun e he =>
      hes.entries e ((List.mem_append.mp he).elim (List.mem_append_left _)
        fun he => List.mem_append_right as (List.mem_cons_of_mem _ he))
    refine forall_append_single hrest ?_
    cases hold with
    | value hv => cases hv
    | implied _ _ hd hes' =>
      refine .header ht ?_ (List.forall_mem_append.mpr ⟨hes', hgrown.entries⟩)
      rw [names_append, List.nodup_append]
      exact ⟨hd, hgrown.distinct, fun a ha b hb he => hsub b hb (he ▸ ha)⟩
  | @made k ks es sub hn hs ih =>
    have hsub := ih .nil fun k' hk' => hks k' (List.mem_cons_of_mem k hk')
    exact forall_append_single hes.entries
      (.implied (hks k List.mem_cons_self) (hs.ownLines_eq.trans rfl) (hs.distinct .nil) hsub)
  | @found k k' f ks as bs sub sub' hk hf hs ih =>
    have hold := hes.entries (k', .table f sub) (List.mem_append_right as List.mem_cons_self)
    have hsub (h : Forest line inner title sub) := ih h fun k' hk' => hks k' (List.mem_cons_of_mem k hk')
    refine forall_exchange hes.entries ?_
    cases hold with
    | value hv => cases f with
      | inline => cases hf
      | _ => cases hv
    | dotted hk' hd hes' => exact .dotted hk' (hs.distinct hd) (hsub ⟨hd, hes'⟩)
    | implied hk' hl hd hes' => exact .implied hk' (hs.ownLines_eq.trans hl) (hs.distinct hd) (hsub ⟨hd, hes'⟩)
    | header hk' hd hes' => exact .header hk' (hs.distinct hd) (hsub ⟨hd, hes'⟩)
  | @last k k' f elements ks as bs sub sub' hk hf hs ih =>
    have hold := hes.entries (k', .tables (elements ++ [.table f sub])) (List.mem_append_right as List.mem_cons_self)
    have hsub (h : Forest line inner title sub) := ih h fun k' hk' => hks k' (List.mem_cons_of_mem k hk')
    refine forall_exchange hes.entries ?_
    generalize he : elements ++ [.table f sub] = ns at hold
    cases hold with
    | value hv => cases hv
    | @tables _ all hk' hd hall =>
      obtain ⟨init, l, rfl, rfl, hl⟩ := List.append_eq_map_iff.mp he
      obtain ⟨t, rfl, ht'⟩ := List.map_eq_singleton_iff.mp hl
      cases ht'
      rw [List.forall_mem_append, List.forall_mem_singleton] at hd hall
      exact .tables_concat init hk' (fun n hn => ⟨hd.1 n hn, hall.1 n hn⟩) t.1 t.2.1
        ⟨hs.distinct hd.2, hsub ⟨hd.2, hall.2⟩⟩

/-! ## The chapter that is added -/

def named (c : Nat × Headed) : Nat × Headed := (c.1, { c.2 with path := c.2.path.core })

theorem map_named_under (k : Key) (cs : List (Nat × Headed)) :
    (cs.map (under k)).map named = (cs.map named).map (under k.core) := by
  rw [List.map_map, List.map_map]
  rfl

theorem OwnEntry.chapters_eq_nil {e : Key × Node} (h : OwnEntry line inner e) : e.2.chapters false e.1 = [] := by
  induction h with
  | @value k n hv _ =>
    cases n with
    | table f sub => cases f with
      | inline => rfl
      | _ => cases hv
    | tables elements => cases hv
    | _ => rfl
  | @dotted k sub _ _ _ _ ih =>
    have hsub : chapters sub = [] := List.eq_nil_iff_forall_not_mem.mpr fun c hc => by
      obtain ⟨e, he, hc⟩ := mem_chapters.mp hc
      rw [ih e he] at hc
      cases hc
    rw [Node.chapters, hsub]
    rfl

theorem Own.chapters_eq_nil (h : Own line inner es) : chapters es = [] :=
  List.eq_nil_iff_forall_not_mem.mpr fun c hc => by
    obtain ⟨e, he, hc⟩ := mem_chapters.mp hc
    rw [(h.entries e he).chapters_eq_nil] at hc
    cases hc

theorem perm_between {α : Type} {as xs xs' bs : List α} {c : α} (h : xs'.Perm (xs ++ [c])) :
    (as ++ (xs' ++ bs)).Perm (as ++ (xs ++ bs) ++ [c]) := by
  rw [List.append_assoc, List.append_assoc]
  refine List.Perm.append_left as ((h.append_right bs).trans ?_)
  rw [List.append_assoc]
  exact List.Perm.append_left xs List.perm_append_comm

/-- A tree gains just the chapter of the section. -/
theorem Opened.perm (h : Opened s (.header (some place) (some s.margin)) own ks es es') (hown : chapters own = []) :
    ((chapters es').map named).Perm
      ((chapters es).map named ++ [named (place, ⟨s.array, ⟨ks, s.path.leaf⟩, s.margin, ownLines own⟩)]) := by
  induction h with
  | table harray =>
    rw [chapters_append_cons, Node.chapters, hown, harray, List.map_append]
    exact .rfl
  | array harray =>
    rw [chapters_append_cons, Node.chapters, elementChapters, elementChapters, Node.chapters, hown, harray,
      List.map_append]
    exact .rfl
  | @element k as bs elements harray hk =>
    rw [chapters_append_cons, chapters_append_cons, Node.chapters, Node.chapters, elementChapters_append,
      elementChapters, elementChapters, Node.chapters, hown, harray]
    simp only [List.map_append]
    refine perm_between (List.Perm.append_left _ ?_)
    unfold named KeyPath.core
    rw [← Key.core_of_name hk]
    exact .rfl
  | @claimed k as bs sub harray hk hlines _ =>
    rw [chapters_append_cons, chapters_append_cons, chapters_append, Node.chapters, Node.chapters, chapters_append,
      hown, ownLines_append, hlines, harray]
    simp only [Form.isInline, Form.chapter, Bool.false_eq_true, ite_false, List.map_append, map_named_under,
      Key.core_of_name hk, chapters, List.append_nil, List.nil_append, List.append_assoc]
    refine List.Perm.append_left _ ?_
    -- what was below the table has moved behind the other entries with it
    rw [← List.append_assoc]
    exact List.perm_append_comm
  | @made k ks es sub hn hs ih =>
    have hsub := ih.map (under k.core)
    rw [chapters_append_cons, Node.chapters]
    simp only [Form.isInline, Form.chapter, Bool.false_eq_true, ite_false, List.map_append, map_named_under, chapters,
      List.append_nil, List.nil_append]
    exact List.Perm.append_left _ hsub
  | @found k k' f ks as bs sub sub' hk hf hs ih =>
    rw [chapters_append_cons, chapters_append_cons, Node.chapters, Node.chapters, hs.ownLines_eq]
    simp only [hf, Bool.false_eq_true, ite_false, List.map_append, map_named_under, Key.core_of_name hk]
    have hsub := ih.map (under k.core)
    rw [List.map_append] at hsub
    refine perm_between ?_
    rw [List.append_assoc]
    exact List.Perm.append_left _ hsub
  | @last k k' f elements ks as bs sub sub' hk hf hs ih =>
    rw [chapters_append_cons, chapters_append_cons, Node.chapters, Node.chapters, elementChapters_append,
      elementChapters_append, elementChapters, elementChapters, elementChapters, Node.chapters, Node.chapters,
      hs.ownLines_eq]
    simp only [hf, Bool.false_eq_true, ite_false, List.map_append, map_named_under, Key.core_of_name hk,
      elementChapters, List.append_nil]
    have hsub := ih.map (under k.core)
    rw [List.map_append] at hsub
    refine perm_between ?_
    rw [List.append_assoc, List.append_assoc]
    exact List.Perm.append_left _ (List.Perm.append_left _ hsub)

end

end Broadcast.Toml
