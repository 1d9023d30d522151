import Broadcast.Proofs.Toml.Blocks

/-!
# Where a document comes from

A document knows the lines and the sections it was read from: they are its own
lines and its chapters. Under some of its top-level keys it has just those that
start with these keys, and each of them can be read again.
-/

namespace Broadcast.Toml

open Entries

/-! ## Under some keys only -/

section
variable {chosen : String → Bool} {es : Entries} {line : Key → Node → Prop} {inner title : Key → Prop}

theorem flatMap_only {α : Type} {f : Key × Node → List α} {name : α → String} (h : ∀ e, ∀ a ∈ f e, name a = e.1.name)
    (chosen : String → Bool) (es : Entries) :
    (only chosen es).flatMap f = (es.flatMap f).filter fun a => chosen (name a) := by
  induction es with
  | nil => rfl
  | cons e es ih =>
    rw [List.flatMap_cons, List.filter_append, ← ih]
    cases hc : chosen e.1.name with
    | true =>
      have hall : (f e).filter (fun a => chosen (name a)) = f e :=
        List.filter_eq_self.mpr fun a ha => by rw [h e a ha, hc]
      have honly : only chosen (e :: es) = e :: only chosen es := List.filter_cons_of_pos hc
      rw [hall, honly, List.flatMap_cons]
    | false =>
      have hnone : (f e).filter (fun a => chosen (name a)) = [] :=
        List.filter_eq_nil_iff.mpr fun a ha => by rw [h e a ha, hc]; exact Bool.false_ne_true
      have honly : only chosen (e :: es) = only chosen es := List.filter_cons_of_neg (Bool.eq_false_iff.mp hc)
      rw [hnone, honly, List.nil_append]

theorem ownLines_only (chosen : String → Bool) (es : Entries) :
    ownLines (only chosen es) = (ownLines es).filter fun p => chosen p.path.first.name := by
  have hflat (es : Entries) : ownLines es = es.flatMap fun e => e.2.ownLines e.1 := by
    induction es with
    | nil => rfl
    | cons e es ih => rw [← Prod.eta e, ownLines, ih]; rfl
  rw [hflat, hflat]
  exact flatMap_only (fun e p hp => by rw [first_of_mem_ownLines hp]) chosen es

mutual
theorem first_of_mem_chapters (k : Key) (c : Nat × Headed) : ∀ (n : Node) (array : Bool), c ∈ n.chapters array k →
    c.2.path.first = k
  | .scalar .., _, h => nomatch h
  | .array .., _, h => nomatch h
  | .table form sub, array, h => by
    rw [Node.chapters] at h
    split at h
    · cases h
    · rcases List.mem_append.mp h with h | h
      · unfold Form.chapter at h
        split at h
        · rw [List.mem_singleton.mp h]; rfl
        · cases h
      · obtain ⟨c, -, rfl⟩ := List.mem_map.mp h
        rfl
  | .tables elements, _, h => first_of_mem_elementChapters k c elements h
theorem first_of_mem_elementChapters (k : Key) (c : Nat × Headed) : ∀ ns : List Node, c ∈ elementChapters k ns →
    c.2.path.first = k
  | [], h => nomatch h
  | n :: ns, h => by
    rw [elementChapters] at h
    rcases List.mem_append.mp h with h | h
    · exact first_of_mem_chapters k c n true h
    · exact first_of_mem_elementChapters k c ns h
end

theorem chapters_only (chosen : String → Bool) (es : Entries) :
    chapters (only chosen es) = (chapters es).filter fun c => chosen c.2.path.first.name := by
  have hflat (es : Entries) : chapters es = es.flatMap fun e => e.2.chapters false e.1 := by
    induction es with
    | nil => rfl
    | cons e es ih => rw [← Prod.eta e, chapters, ih]; rfl
  rw [hflat, hflat]
  exact flatMap_only (fun e c hc => by rw [first_of_mem_chapters e.1 c e.2 false hc]) chosen es

theorem Own.sublist {as : Entries} (h : Own line inner es) (hs : List.Sublist as es) : Own line inner as :=
  ⟨h.distinct.sublist (hs.map _), fun e he => h.entries e (hs.subset he)⟩

theorem Forest.sublist {as : Entries} (h : Forest line inner title es) (hs : List.Sublist as es) :
    Forest line inner title as :=
  ⟨h.distinct.sublist (hs.map _), fun e he => h.entries e (hs.subset he)⟩

end

/-! ## Chapters that are read again -/

mutual
theorem misspells_of_chapter (k : Key) (c : Nat × Headed) : ∀ (n : Node) (array : Bool), n.misspells = false →
    c ∈ n.chapters array k → ∀ p ∈ c.2.pairs, p.value.misspells = false
  | .scalar .., _, _, h => nomatch h
  | .array .., _, _, h => nomatch h
  | .table form sub, array, hd, h => by
    rw [Node.misspells] at hd
    rw [Node.chapters] at h
    split at h
    · cases h
    · rcases List.mem_append.mp h with h | h
      · unfold Form.chapter at h
        split at h
        · rw [List.mem_singleton.mp h]
          exact misspells_of_ownLines hd
        · cases h
      · obtain ⟨c, hc, rfl⟩ := List.mem_map.mp h
        exact misspells_of_chapters c sub hd hc
  | .tables elements, _, hd, h => by
    rw [Node.misspells] at hd
    exact misspells_of_elementChapters k c elements hd h
theorem misspells_of_elementChapters (k : Key) (c : Nat × Headed) : ∀ ns : List Node, nodesMisspell ns = false →
    c ∈ elementChapters k ns → ∀ p ∈ c.2.pairs, p.value.misspells = false
  | [], _, h => nomatch h
  | n :: ns, hd, h => by
    rw [nodesMisspell, Bool.or_eq_false_iff] at hd
    rw [elementChapters] at h
    rcases List.mem_append.mp h with h | h
    · exact misspells_of_chapter k c n true hd.1 h
    · exact misspells_of_elementChapters k c ns hd.2 h
theorem misspells_of_chapters (c : Nat × Headed) : ∀ es : List (Key × Node), entriesMisspell es = false →
    c ∈ chapters es → ∀ p ∈ c.2.pairs, p.value.misspells = false
  | [], _, h => nomatch h
  | (k, n) :: es, hd, h => by
    rw [entriesMisspell, Bool.or_eq_false_iff] at hd
    rw [chapters] at h
    rcases List.mem_append.mp h with h | h
    · exact misspells_of_chapter k c n false hd.1 h
    · exact misspells_of_chapters c es hd.2 h
end

section
variable {line : Key → Node → Prop} {inner title P : Key → Prop} {es : Entries}

theorem Grown.chapter_keys (hi : ∀ k, inner k → P k) (ht : ∀ k, title k → P k) {e : Key × Node}
    (h : Grown line inner title e) :
    ∀ c ∈ e.2.chapters false e.1, (∀ k ∈ c.2.path.parents, P k) ∧ title c.2.path.leaf := by
  have below {k : Key} {sub : Entries} (hk : P k)
      (ih : ∀ e ∈ sub, ∀ c ∈ e.2.chapters false e.1, (∀ k ∈ c.2.path.parents, P k) ∧ title c.2.path.leaf) :
      ∀ c ∈ (chapters sub).map (under k), (∀ k ∈ c.2.path.parents, P k) ∧ title c.2.path.leaf := by
    refine List.forall_mem_map.mpr fun c hc => ?_
    obtain ⟨e, he, hce⟩ := mem_chapters.mp hc
    obtain ⟨hparents, hleaf⟩ := ih e he c hce
    exact ⟨List.forall_mem_cons.mpr ⟨hk, hparents⟩, hleaf⟩
  have header {array : Bool} {k : Key} {place : Nat} {margin : Margin} {sub : Entries} (hk : title k)
      (ih : ∀ e ∈ sub, ∀ c ∈ e.2.chapters false e.1, (∀ k ∈ c.2.path.parents, P k) ∧ title c.2.path.leaf) :
      ∀ c ∈ (Node.table (.header (some place) (some margin)) sub).chapters array k,
        (∀ k ∈ c.2.path.parents, P k) ∧ title c.2.path.leaf := by
    rw [Node.chapters]
    exact List.forall_mem_cons.mpr ⟨⟨by simp, hk⟩, below (ht k hk) ih⟩
  induction h with
  | @value k n hv hl =>
    have hentry : OwnEntry line inner (k, n) := .value hv hl
    rw [hentry.chapters_eq_nil]
    simp
  | dotted hk _ _ ih => exact below (hi _ hk) ih
  | implied hk _ _ _ ih => exact below (hi _ hk) ih
  | header hk _ _ ih => exact header hk ih
  | @tables k elements hk hd hall ih =>
    rw [Node.chapters]
    clear hd hall
    induction elements with
    | nil => exact fun c hc => nomatch hc
    | cons n elements ihe =>
      rw [List.forall_mem_cons] at ih
      rw [List.map_cons, elementChapters]
      exact List.forall_mem_append.mpr ⟨header hk ih.1, ihe ih.2⟩

end

/-! ## Sections by their places -/

section
variable {place : Nat} {ss : List Headed}

theorem mem_numbered {o : Nat × Headed} (h : o ∈ numbered place ss) : place ≤ o.1 ∧ ∃ s ∈ ss, o.2 = s.settled := by
  induction ss generalizing place with
  | nil => cases h
  | cons s ss ih =>
    rcases List.mem_cons.mp h with rfl | h
    · exact ⟨Nat.le_refl _, s, List.mem_cons_self, rfl⟩
    · obtain ⟨hplace, s', hs', ho⟩ := ih h
      exact ⟨Nat.le_of_succ_le hplace, s', List.mem_cons_of_mem s hs', ho⟩

theorem numbered_pairwise (place : Nat) (ss : List Headed) : (numbered place ss).Pairwise fun c d => c.1 < d.1 := by
  induction ss generalizing place with
  | nil => exact .nil
  | cons s ss ih => exact .cons (fun o ho => (mem_numbered ho).1) (ih (place + 1))

theorem filter_numbered (p : Headed → Bool) (hp : ∀ s : Headed, p s.settled = p s) (place : Nat) (ss : List Headed) :
    ((numbered place ss).filter fun o => p o.2).map (·.2) = (ss.filter p).map Headed.settled := by
  induction ss generalizing place with
  | nil => rfl
  | cons s ss ih =>
    rw [numbered]
    cases hs : p s with
    | true => rw [List.filter_cons_of_pos (by rw [hp, hs]), List.filter_cons_of_pos hs, List.map_cons, List.map_cons,
        ih]
    | false =>
      rw [List.filter_cons_of_neg (by rw [hp, hs]; exact Bool.false_ne_true),
        List.filter_cons_of_neg (by rw [hs]; exact Bool.false_ne_true), ih]

end

/-! ## Documents as they are read -/

/-- Whether no line of a text leads into a table that headers before it have made. -/
def Document.isStrict (text : String) : Bool :=
  match lines? ((skipMark text.toList).length + 1) (skipMark text.toList) with
  | some (ls, _) => ((addPairs [] (headed ls).1).map fun es => areApart 1 es (headed ls).2).getD true
  | none => true

abbrev FileLine : Key → Node → Prop := IsLine IsBlanks IsBlanks IsRemark (node? depthLimit)

/-- The lines, with the table they build, and the sections that a document was read from. -/
structure Document.Origin (d : Document) (ps : List Pair) (es : Entries) (ss : List Headed) : Prop where
  pairs : ∀ p ∈ ps, p.InFile
  sections : ∀ s ∈ ss, IsHeader s.path s.margin ∧ (∀ k ∈ s.path.parents, k.margin = {}) ∧ ∀ p ∈ s.pairs, p.InFile
  built : addPairs [] ps = some es
  grown : addAllHeaded 1 es ss = some d.entries
  apart : areApart 1 es ss = true
  tail : IsTail d.tail.toList

theorem Document.origin_of_read {text : String} {d : Document} (h : Document.read? text = some d)
    (hs : Document.isStrict text = true) : ∃ ps es ss, d.Origin ps es ss := by
  obtain ⟨⟨ls, tail⟩, hls, h⟩ := Option.bind_eq_some_iff.mp h
  obtain ⟨es, hes, h⟩ := Option.bind_eq_some_iff.mp h
  obtain ⟨es', hes', h⟩ := Option.bind_eq_some_iff.mp h
  cases h
  obtain ⟨hall, htail⟩ := lines?_inFile hls
  obtain ⟨hpairs, hsections⟩ := headed_inFile hall
  rw [isStrict, hls] at hs
  simp only [hes, Option.map_some, Option.getD_some] at hs
  exact ⟨_, es, _, hpairs, hsections, hes, hes', hs, htail⟩

namespace Document.Origin

variable {d : Document} {ps : List Pair} {es : Entries} {ss : List Headed} {chosen : String → Bool}

theorem own (h : d.Origin ps es ss) : Own FileLine Key.IsInner es :=
  (own_of_addPairs (fun p hp => (h.pairs p hp).fits) .nil h.built).1

theorem fits (h : d.Origin ps es ss) : ∀ s ∈ ss, s.Fits FileLine Key.IsInner Key.IsTitle := by
  intro s hs
  obtain ⟨hheader, hmargin, hpairs⟩ := h.sections s hs
  exact ⟨fun p hp => (hpairs p hp).fits, hheader.leaf, fun k hk => ⟨hheader.parents k hk, hmargin k hk⟩⟩

theorem forest (h : d.Origin ps es ss) : Forest FileLine Key.IsInner Key.IsTitle d.entries :=
  (forest_of_addAllHeaded h.own.forest h.fits h.apart h.grown).1

theorem ownLines_eq (h : d.Origin ps es ss) : ownLines d.entries = ownLines es :=
  (forest_of_addAllHeaded h.own.forest h.fits h.apart h.grown).2.1

theorem chapters_perm (h : d.Origin ps es ss) :
    ((chapters d.entries).map named).Perm ((numbered 1 ss).map named) := by
  have hperm := (forest_of_addAllHeaded h.own.forest h.fits h.apart h.grown).2.2
  rw [h.own.chapters_eq_nil] at hperm
  exact hperm

theorem lines_again (h : d.Origin ps es ss) (hd : entriesMisspell (only chosen d.entries) = false) :
    ∀ p ∈ ownLines (only chosen d.entries), p.InFile ∧ p.value.misspells = false := by
  intro p hp
  refine ⟨Pair.isRead_of_addPairs h.pairs h.built p ?_, misspells_of_ownLines hd p hp⟩
  rw [ownLines_only, h.ownLines_eq] at hp
  exact List.mem_of_mem_filter hp

theorem chapters_again (h : d.Origin ps es ss) (hd : entriesMisspell (only chosen d.entries) = false) :
    ∀ c ∈ chapters (only chosen d.entries), c.2.IsReadable := by
  intro c hc
  have hloss := misspells_of_chapters c _ hd hc
  rw [chapters_only] at hc
  have hmem := List.mem_of_mem_filter hc
  obtain ⟨e, he, hce⟩ := mem_chapters.mp hmem
  obtain ⟨hparents, hleaf⟩ := (h.forest.entries e he).chapter_keys (fun k hk => Key.IsInner.spelled hk)
    (fun k hk => Key.IsTitle.spelled hk) c hce
  obtain ⟨o, ho, hoc⟩ := List.mem_map.mp (h.chapters_perm.mem_iff.mp (List.mem_map_of_mem hmem))
  obtain ⟨-, s, hs, hso⟩ := mem_numbered ho
  obtain ⟨hheader, -, hpairs⟩ := h.sections s hs
  -- apart from how its path is spelled, the chapter is a section that was read
  have hmargin : s.margin = c.2.margin := by
    have he := congrArg (fun c : Nat × Headed => c.2.margin) hoc
    simp only [named, hso] at he
    exact he
  have hlines : s.settled.pairs = c.2.pairs := by
    have he := congrArg (fun c : Nat × Headed => c.2.pairs) hoc
    simp only [named, hso] at he
    exact he
  have hshort : s.path.parents.length = c.2.path.parents.length := by
    have he := congrArg (fun c : Nat × Headed => c.2.path.parents.length) hoc
    simp only [named, hso, KeyPath.core, List.length_map] at he
    exact he
  refine ⟨⟨hparents, hleaf, hshort ▸ hheader.short, hmargin ▸ hheader.lead, hmargin ▸ hheader.remark⟩, fun p hp => ?_⟩
  refine ⟨?_, hloss p hp⟩
  rw [← hlines, Headed.settled] at hp
  cases hb : addPairs [] s.pairs with
  | none => rw [hb] at hp; cases hp
  | some own =>
    rw [hb] at hp
    exact Pair.isRead_of_addPairs hpairs hb p hp

/-- The chapters under chosen keys, in the order of their places, are the sections under
these keys in the order in which they were read. -/
theorem chapters_order (h : d.Origin ps es ss) {cs : List (Nat × Headed)}
    (hcs : cs.Perm (chapters (only chosen d.entries))) (hsorted : cs.Pairwise fun c d => c.1 ≤ d.1) :
    cs.map (fun c => c.2.core) = (ss.filter fun s => chosen s.path.first.name).map fun s => s.settled.core := by
  have hname (c : Nat × Headed) : (named c).2.path.first.name = c.2.path.first.name := by
    have he := congrArg Key.name (KeyPath.first_core c.2.path)
    exact he
  have hfilter (cs : List (Nat × Headed)) : (cs.map named).filter (fun c => chosen c.2.path.first.name) =
      (cs.filter fun c => chosen c.2.path.first.name).map named := by
    rw [List.filter_map]
    refine congrArg (List.map named) (congrArg (List.filter · cs) (funext fun c => ?_))
    rw [Function.comp_apply, hname]
  have hperm : (cs.map named).Perm (((numbered 1 ss).filter fun o => chosen o.2.path.first.name).map named) := by
    rw [chapters_only] at hcs
    have hall := h.chapters_perm.filter fun c => chosen c.2.path.first.name
    rw [hfilter, hfilter] at hall
    exact (hcs.map named).trans hall
  have hplaces : (((numbered 1 ss).filter fun o => chosen o.2.path.first.name).map named).Pairwise
      fun c d => c.1 < d.1 :=
    List.pairwise_map.mpr ((numbered_pairwise 1 ss).filter _)
  have heq : cs.map named = ((numbered 1 ss).filter fun o => chosen o.2.path.first.name).map named := by
    have hmapped : (cs.map named).Pairwise fun c d => c.1 ≤ d.1 := List.pairwise_map.mpr hsorted
    refine List.Perm.eq_of_pairwise (fun a b ha hb hab hba => ?_) hmapped (hplaces.imp Nat.le_of_lt) hperm
    -- no two sections have one place
    have hnodup := (List.pairwise_map (f := fun c : Nat × Headed => c.1)).mpr (hplaces.imp Nat.ne_of_lt)
    exact List.inj_on_of_nodup_map hnodup (hperm.mem_iff.mp ha) hb (Nat.le_antisymm hab hba)
  have hcore (c : Nat × Headed) : (named c).2.core = c.2.core := by
    simp only [named, Headed.core, KeyPath.core, List.map_map]
    rfl
  have hmap := congrArg (List.map fun c : Nat × Headed => c.2.core) heq
  rw [List.map_map, List.map_map] at hmap
  simp only [Function.comp_def, hcore] at hmap
  rw [hmap]
  have hnumbered := filter_numbered (fun s => chosen s.path.first.name) (fun _ => rfl) 1 ss
  have hsettled := congrArg (List.map Headed.core) hnumbered
  rw [List.map_map, List.map_map] at hsettled
  exact hsettled

end Document.Origin

end Broadcast.Toml
