import Broadcast.Proofs.Toml.Origin

/-!
# A table exchanged in a document

A document with a new table under a top-level key is printed as the lines and the
chapters that belong to other keys, in the order in which they were read, with the
new table somewhere among its chapters. Reading that gives the new table and all
that was under the other keys.
-/

namespace Broadcast.Toml

open Entries

/-! ## The new table -/

theorem Grown.key {e : Key × Node} (h : Grown FileLine Key.IsInner Key.IsTitle e) :
    e.1.Spelled ∧ IsGap e.1.margin.before.toList ∧ IsBlanks e.1.margin.after.toList := by
  have inner {k : Key} (hk : k.IsInner) :
      k.Spelled ∧ IsGap k.margin.before.toList ∧ IsBlanks k.margin.after.toList := by
    rw [hk.margin]
    exact ⟨hk.spelled, isGap_nil, by simp [IsBlanks]⟩
  have title {k : Key} (hk : k.IsTitle) : k.Spelled ∧ IsGap k.margin.before.toList ∧ IsBlanks k.margin.after.toList :=
    ⟨hk.spelled, isGap_of_blanks hk.before, hk.after⟩
  cases h with
  | value _ hl => exact ⟨hl.spelled, hl.lead, hl.pad⟩
  | dotted hk => exact inner hk
  | implied hk => exact inner hk
  | header hk => exact title hk
  | tables hk => exact title hk

theorem setTable_entries {d : Document} (hd : (names d.entries).Nodup) (name : String) (qs : List (String × Scalar)) :
    ∃ as k bs, (d.setTable name qs).entries = as ++ (k, newTable qs) :: bs ∧
      as ++ bs = only (fun n => n != name) d.entries ∧ k.name = name ∧
      ((∃ n, (k, n) ∈ d.entries) ∨ k = Key.bare name ∧ name ∉ names d.entries) := by
  unfold Document.setTable
  split
  · rename_i hc
    obtain ⟨n, hn⟩ := Option.isSome_iff_exists.mp hc
    obtain ⟨as, k, bs, hsplit, hk, hr, he⟩ := split hn hd
    refine ⟨as, k, bs, hr _, he.symm, hk, .inl ⟨n, ?_⟩⟩
    rw [hsplit]
    exact List.mem_append_right _ List.mem_cons_self
  · rename_i hc
    have hn := contains_eq_false_iff.mp (Bool.eq_false_iff.mpr hc)
    refine ⟨d.entries, Key.bare name, [], rfl, ?_, rfl, .inr ⟨rfl, hn⟩⟩
    rw [List.append_nil]
    exact (erase_of_notMem hn).symm

theorem toList_setTable {d : Document} {as bs : Entries} {k : Key} {qs : List (String × Scalar)}
    (hd : d.entries = as ++ (k, newTable qs) :: bs) {line : Key → Node → Prop} {inner title : Key → Prop}
    (hforest : Forest line inner title (as ++ bs)) :
    ∃ (cs ds : List (Nat × Headed)) (lead : String), (cs ++ ds).Perm (chapters (as ++ bs)) ∧
      ((cs ++ ds).Pairwise fun c d => c.1 ≤ d.1) ∧ IsGap lead.toList ∧
      d.text.toList = lineChars (ownLines (as ++ bs)) ++ ((cs.map (·.2)).flatMap Headed.chars ++
        ((headerText false [k] ⟨lead, ""⟩).toList ++
          (qs.flatMap pairChars ++ ((ds.map (·.2)).flatMap Headed.chars ++ d.tail.toList)))) := by
  have has := hforest.sublist (List.sublist_append_left as bs)
  have hbs := hforest.sublist (List.sublist_append_right as bs)
  obtain ⟨last, hshown⟩ := shown_setTable has hbs k qs
  obtain ⟨cs, ds, hsorted, hperm, hplaces⟩ := sortedBlocks_around hshown
  have hlines : pairTexts [] d.entries = (ownLines (as ++ bs)).map Pair.text := by
    rw [hd, pairTexts_ownLines, ownLines_append_cons, ownLines_append]
    rfl
  obtain ⟨lead, hlead, htext⟩ := toList_blocksText_around k last qs cs ds (pairTexts [] d.entries).isEmpty
  refine ⟨cs, ds, lead, ?_, hplaces, hlead, ?_⟩
  · rw [chapters_append]
    exact hperm
  · unfold Document.text
    simp only
    rw [hd] at htext ⊢
    rw [String.toList_append, String.toList_append, blocksText_shown, hsorted, htext, ← hd, hlines, toList_lineTexts]
    simp only [List.append_assoc]

/-! ## Building it again -/

theorem addAllHeaded_append (as bs : List Headed) (place : Nat) (es : Entries) :
    addAllHeaded place es (as ++ bs) =
      (addAllHeaded place es as).bind fun es => addAllHeaded (place + as.length) es bs := by
  induction as generalizing place es with
  | nil => rfl
  | cons s as ih =>
    rw [List.cons_append, addAllHeaded, addAllHeaded]
    show Option.bind _ _ = Option.bind (Option.bind _ _) _
    rw [Option.bind_assoc]
    refine congrArg _ (funext fun es₁ => ?_)
    rw [ih, List.length_cons, Nat.add_assoc, Nat.add_comm 1]

theorem areApart_append {as : List Headed} {place : Nat} {es es₁ : Entries} (bs : List Headed)
    (h : addAllHeaded place es as = some es₁) :
    areApart place es (as ++ bs) = (areApart place es as && areApart (place + as.length) es₁ bs) := by
  induction as generalizing place es with
  | nil => cases h; rw [areApart, Bool.true_and]; rfl
  | cons s as ih =>
    obtain ⟨es', hs, h⟩ := addAllHeaded_cons h
    rw [List.cons_append, areApart, areApart, hs]
    simp only
    rw [ih h, Bool.and_assoc, List.length_cons, Nat.add_assoc, Nat.add_comm 1]

theorem only_sublist (chosen : String → Bool) (es : Entries) : List.Sublist (only chosen es) es := List.filter_sublist

theorem only_only (chosen : String → Bool) (es : Entries) : only chosen (only chosen es) = only chosen es := by
  unfold only
  rw [List.filter_filter]
  simp only [Bool.and_self]

theorem only_not_only (chosen : String → Bool) (es : Entries) : only (fun n => !chosen n) (only chosen es) = [] := by
  unfold only
  rw [List.filter_filter]
  simp only [Bool.not_and_self, List.filter_false]

theorem addHeaded_new {s : Headed} {qs : List (String × Scalar)} {es : Entries} (place : Nat) (harray : s.array = false)
    (hparents : s.path.parents = []) (hpairs : s.pairs = qs.map pairOf) (hdistinct : (qs.map (·.1)).Nodup)
    (hfree : find? s.path.leaf.name es = none) :
    addHeaded s place s.path.parents es =
      some (es ++ [(s.path.leaf, .table (.header (some place) (some s.margin)) (newEntries qs))]) := by
  have hown : addPairs [] s.pairs = some (newEntries qs) := by
    rw [hpairs]
    exact addPairs_pairs qs [] hdistinct
  rw [hparents, addHeaded, openTable, if_neg (by rw [harray]; exact Bool.false_ne_true), hfree]
  simp only [hown, Option.map_some]

theorem spelled_bare {name : String} (h : IsBareName name) : (Key.bare name).Spelled := by
  refine ⟨fun rest hr => ?_, by simp [Key.bare, IsBlankText], by simp [Key.bare, IsBlankText]⟩
  obtain ⟨c, r, rfl, hc, -⟩ := hr
  exact key?_bare h hc r

theorem Reads.read? {text : String} {ls : List Line} {tail : String} (h : Reads text.toList (some (ls, tail))) :
    Document.read? text = Document.ofLines? ls tail := by
  unfold Document.read?
  simp only [h.unmarked]
  rw [h.lines _ (Nat.lt_succ_self _)]
  rfl

theorem Reads.read?_none {text : String} (h : Reads text.toList none) : Document.read? text = none := by
  unfold Document.read?
  simp only [h.unmarked]
  rw [h.lines _ (Nat.lt_succ_self _)]
  rfl

namespace Document

variable {d : Document} {ps : List Pair} {es : Entries} {ss : List Headed} {name : String}

/-- Lines and sections of other keys, with a new section among them, build what was there under the
other keys, and the new table. -/
theorem Origin.rebuilt (h : d.Origin ps es ss) (new : Headed) {ps' : List Pair} {ss₁ ss₂ : List Headed}
    {qs : List (String × Scalar)}
    (hps' : ps'.map Pair.core = (ownLines (only (fun n => n != name) d.entries)).map Pair.core)
    (hss : (ss₁ ++ ss₂).map Headed.core =
      (ss.filter fun s => s.path.first.name != name).map fun s => s.settled.core)
    (harray : new.array = false) (hparents : new.path.parents = []) (hleaf : new.path.leaf.name = name)
    (hpairs : new.pairs = qs.map pairOf) (hdistinct : (qs.map (·.1)).Nodup) :
    ∃ es₂ es' form, addPairs [] ps' = some es₂ ∧ addAllHeaded 1 es₂ (ss₁ ++ new :: ss₂) = some es' ∧
      entryCores (only (fun n => n != name) es') = entryCores (only (fun n => n != name) d.entries) ∧
      only (fun n => !(n != name)) es' = [(new.path.leaf, .table form (newEntries qs))] := by
  have hlines : ownLines (only (fun n => n != name) d.entries) = ownLines (only (fun n => n != name) es) := by
    rw [ownLines_only, ownLines_only, h.ownLines_eq]
  rw [hlines] at hps'
  obtain ⟨es₂, hes₂, hcores⟩ := addPairs_of_cores (h.own.sublist (only_sublist _ es)) hps'
  have hstart : entryCores (only (fun n => n != name) es₂) = entryCores (only (fun n => n != name) es) := by
    rw [← only_core, hcores, only_core, only_only]
  have hothers : only (fun n => !(n != name)) es₂ = [] := by
    have he : entryCores (only (fun n => !(n != name)) es₂) = [] := by
      rw [← only_core, hcores, only_core, only_not_only (fun n => n != name)]
      rfl
    rw [entryCores_eq, List.map_eq_nil_iff] at he
    exact he
  -- the sections fall apart where the new one stands
  rw [List.map_append] at hss
  obtain ⟨F₁, F₂, hF, h₁, h₂⟩ := List.map_eq_append_iff.mp hss.symm
  obtain ⟨front, back, rfl, rfl, rfl⟩ := List.filter_eq_append_iff.mp hF
  have hgrown := h.grown
  rw [addAllHeaded_append] at hgrown
  obtain ⟨mid, hfront, hback⟩ := Option.bind_eq_some_iff.mp hgrown
  have hapart := h.apart
  rw [areApart_append back hfront, Bool.and_eq_true] at hapart
  have hfits := List.forall_mem_append.mp h.fits
  have hmid := (forest_of_addAllHeaded h.own.forest hfits.1 hapart.1 hfront).1
  obtain ⟨es₃, hes₃, hcores₃, hothers₃⟩ := replay hfits.1 h.own.forest hapart.1 hfront h₁.symm hstart 1
  rw [hothers] at hothers₃
  have hself : (!(new.path.leaf.name != name)) = true := by rw [hleaf, bne_self_eq_false]; rfl
  have hfree : find? new.path.leaf.name es₃ = none := by
    have hf : find? new.path.leaf.name (only (fun n => !(n != name)) es₃) = _ := find?_only hself es₃
    rw [← hf, hothers₃]
    rfl
  have hnew := addHeaded_new (1 + ss₁.length) harray hparents hpairs hdistinct hfree
  have hbeside (n : Node) : only (fun n => n != name) (es₃ ++ [(new.path.leaf, n)]) = only (fun n => n != name) es₃ :=
    only_append_single_of_not (by rw [hleaf, bne_self_eq_false]) n es₃
  have hcores₄ := hcores₃
  rw [← hbeside (.table (.header (some (1 + ss₁.length)) (some new.margin)) (newEntries qs))] at hcores₄
  obtain ⟨es', hes', hcores', hothers'⟩ := replay hfits.2 hmid hapart.2 hback h₂.symm hcores₄ (1 + ss₁.length + 1)
  refine ⟨es₂, es', .header (some (1 + ss₁.length)) (some new.margin), hes₂, ?_, hcores', hothers'.trans ?_⟩
  · rw [addAllHeaded_append, hes₃, Option.bind_some, addAllHeaded, hnew]
    exact hes'
  · rw [only_append_single hself, hothers₃]
    rfl

/-- A new table in the text of a document, with the lines and the chapters of other keys around it. -/
structure Around (d : Document) (ss : List Headed) (name : String) (qs : List (String × Scalar)) (k : Key)
    (lead : String) (cs ds : List Headed) : Prop where
  named : k.name = name
  key : k.Spelled ∧ IsGap k.margin.before.toList ∧ IsBlanks k.margin.after.toList
  known : (∃ n, (k, n) ∈ d.entries) ∨ k = Key.bare name ∧ name ∉ names d.entries
  gap : IsGap lead.toList
  front : ∀ s ∈ cs, s.IsReadable
  back : ∀ s ∈ ds, s.IsReadable
  order : (cs ++ ds).map Headed.core = (ss.filter fun s => s.path.first.name != name).map fun s => s.settled.core
  text : (d.setTable name qs).text.toList = lineChars (ownLines (only (fun n => n != name) d.entries)) ++
    (cs.flatMap Headed.chars ++ ((headerText false [k] ⟨lead, ""⟩).toList ++
      (qs.flatMap pairChars ++ (ds.flatMap Headed.chars ++ d.tail.toList))))

theorem Origin.around (h : d.Origin ps es ss) (hd : entriesMisspell (only (fun n => n != name) d.entries) = false)
    (hname : IsBareName name) (qs : List (String × Scalar)) : ∃ k lead cs ds, d.Around ss name qs k lead cs ds := by
  obtain ⟨as, k, bs, hentries, hothers, hk, hkey⟩ := setTable_entries h.forest.distinct name qs
  have hforest : Forest FileLine Key.IsInner Key.IsTitle (as ++ bs) := by
    rw [hothers]
    exact h.forest.sublist (only_sublist _ _)
  obtain ⟨cs, ds, lead, hperm, hplaces, hlead, htext⟩ := toList_setTable hentries hforest
  rw [hothers] at hperm htext
  have hreadable : ∀ s ∈ (cs ++ ds).map (·.2), Headed.IsReadable s :=
    List.forall_mem_map.mpr fun c hc => h.chapters_again hd c (hperm.mem_iff.mp hc)
  rw [List.map_append, List.forall_mem_append] at hreadable
  refine ⟨k, lead, cs.map (·.2), ds.map (·.2), hk, ?_, hkey, hlead, hreadable.1, hreadable.2, ?_, htext⟩
  · rcases hkey with ⟨n, hn⟩ | ⟨rfl, -⟩
    · exact (h.forest.entries _ hn).key
    · exact ⟨spelled_bare hname, isGap_nil, by simp [Key.bare, IsBlanks]⟩
  · rw [← List.map_append, List.map_map]
    exact h.chapters_order hperm hplaces

section
variable {qs : List (String × Scalar)} {k : Key} {lead : String} {cs ds : List Headed}

theorem Around.read (ha : d.Around ss name qs k lead cs ds) (h : d.Origin ps es ss)
    (hd : entriesMisspell (only (fun n => n != name) d.entries) = false) (hbare : ∀ q ∈ qs, IsBareName q.1)
    (hplain : ∀ q ∈ qs, q.2.IsPlain) (hdistinct : (qs.map (·.1)).Nodup)
    (hclean : ∀ e ∈ d.entries, e.1.name = name → IsBlanks e.1.margin.before.toList) :
    ∃ d' k form, Document.read? (d.setTable name qs).text = some d' ∧
      entryCores (only (fun n => n != name) d'.entries) = entryCores (only (fun n => n != name) d.entries) ∧
      only (fun n => !(n != name)) d'.entries = [(k, .table form (newEntries qs))] ∧ k.name = name := by
  have hblank : IsBlanks k.margin.before.toList := by
    rcases ha.known with ⟨n, hn⟩ | ⟨rfl, -⟩
    · exact hclean _ hn ha.named
    · simp [Key.bare, IsBlanks]
  have hheader : IsHeader ⟨[], k⟩ ⟨lead, ""⟩ :=
    ⟨by simp, ⟨ha.key.1, hblank, ha.key.2.2⟩, by simp [depthLimit], ha.gap, isRemark_nil⟩
  -- from the end of the text to its front
  obtain ⟨ss₂, hss₂, hr₂⟩ := (Reads.tail h.tail).sections ha.back
  obtain ⟨path, margin, hpath, hr₃⟩ := (hr₂.newPairs hbare hplain).title hheader false
  obtain ⟨ss₁, hss₁, hr₁⟩ := hr₃.sections ha.front
  obtain ⟨ps', hps', hr⟩ := hr₁.allLines (h.lines_again hd)
  have hparents : path.parents = [] := List.map_eq_nil_iff.mp (congrArg KeyPath.parents hpath)
  have hleaf : path.leaf.name = name := (congrArg (fun p : KeyPath => p.leaf.name) hpath).trans ha.named
  have hsections : (ss₁ ++ ss₂).map Headed.core =
      (ss.filter fun s => s.path.first.name != name).map fun s => s.settled.core := by
    rw [List.map_append, hss₁, hss₂, ← List.map_append]
    exact ha.order
  obtain ⟨es₂, es', form, hes₂, hes', hothers', hnew⟩ :=
    h.rebuilt ⟨false, path, margin, qs.map pairOf⟩ hps' hsections rfl hparents hleaf rfl hdistinct
  refine ⟨⟨es', kept d.tail.toList⟩, path.leaf, form, ?_, hothers', hnew, hleaf⟩
  have hread : Reads (d.setTable name qs).text.toList (some (ps'.map .pair ++
      (ss₁ ++ ⟨false, path, margin, qs.map pairOf⟩ :: ss₂).flatMap Headed.lines, kept d.tail.toList)) := by
    have hlines : (ss₁ ++ ⟨false, path, margin, qs.map pairOf⟩ :: ss₂).flatMap Headed.lines =
        ss₁.flatMap Headed.lines ++ ([.header false path margin] ++
          ((qs.map pairOf).map .pair ++ ss₂.flatMap Headed.lines)) := by
      rw [List.flatMap_append, List.flatMap_cons]
      rfl
    rw [prepend_append, prepend_append, prepend_append, prepend_append] at hr
    simp only [prepend, Option.map_some, List.append_nil, List.append_assoc] at hr
    rw [ha.text, hlines]
    exact hr
  rw [hread.read?, Document.ofLines?, headed_lines]
  simp only [hes₂, hes', bind, Option.bind_some]

theorem Around.read_none (ha : d.Around ss name qs k lead cs ds) (h : d.Origin ps es ss)
    (hd : entriesMisspell (only (fun n => n != name) d.entries) = false)
    (hmore : ∃ e ∈ d.entries, e.1.name = name ∧ ¬ IsBlanks e.1.margin.before.toList) :
    Document.read? (d.setTable name qs).text = none := by
  obtain ⟨e, he, hen, hmore⟩ := hmore
  have hek : e.1 = k := by
    rcases ha.known with ⟨n, hn⟩ | ⟨-, hfree⟩
    · have hsame := List.inj_on_of_nodup_map h.forest.distinct he hn (hen.trans ha.named.symm)
      rw [hsame]
    · exact absurd (hen ▸ name_mem he) hfree
  have hnone : Reads ((headerText false [k] ⟨lead, ""⟩).toList ++
      (qs.flatMap pairChars ++ (ds.flatMap Headed.chars ++ d.tail.toList))) none :=
    .none_of_gap ha.gap ha.key.2.1 (hek ▸ hmore) _
  obtain ⟨ss₁, -, hr₁⟩ := hnone.sections ha.front
  obtain ⟨ps', -, hr⟩ := hr₁.allLines (h.lines_again hd)
  refine Reads.read?_none ?_
  rw [ha.text]
  exact hr

end

/-- **The text around a new table is read again**, up to the header of the table. -/
theorem Origin.read_setTable (h : d.Origin ps es ss)
    (hd : entriesMisspell (only (fun n => n != name) d.entries) = false)
    (hname : IsBareName name) {qs : List (String × Scalar)} (hbare : ∀ q ∈ qs, IsBareName q.1)
    (hplain : ∀ q ∈ qs, q.2.IsPlain) (hdistinct : (qs.map (·.1)).Nodup) :
    ((∀ e ∈ d.entries, e.1.name = name → IsBlanks e.1.margin.before.toList) →
        ∃ d' k form, Document.read? (d.setTable name qs).text = some d' ∧
          entryCores (only (fun n => n != name) d'.entries) = entryCores (only (fun n => n != name) d.entries) ∧
          only (fun n => !(n != name)) d'.entries = [(k, .table form (newEntries qs))] ∧ k.name = name) ∧
      ((∃ e ∈ d.entries, e.1.name = name ∧ ¬ IsBlanks e.1.margin.before.toList) →
        Document.read? (d.setTable name qs).text = none) := by
  obtain ⟨k, lead, cs, ds, ha⟩ := h.around hd hname qs
  exact ⟨ha.read h hd hbare hplain hdistinct, ha.read_none h hd⟩

end Document

end Broadcast.Toml
