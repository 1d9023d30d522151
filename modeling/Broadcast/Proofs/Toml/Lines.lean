import Broadcast.Proofs.Toml.Nodes
import Broadcast.Proofs.Toml.Replay
import Mathlib.Data.List.TakeWhile

/-!
# Lines, again

Every line of a document is read again in its own text, whatever stands behind it.
So a text that is put together from such lines is read as these lines, in the same
order, up to the first that is none.
-/

namespace Broadcast.Toml

def IsBlanks (t : List Char) : Prop := ∀ c ∈ t, isBlank c = true

def Pair.InFile (p : Pair) : Prop := p.IsRead IsBlanks IsBlanks IsRemark (node? depthLimit)

structure Key.IsTitle (k : Key) : Prop where
  spelled : k.Spelled
  before : IsBlanks k.margin.before.toList
  after : IsBlanks k.margin.after.toList

structure IsHeader (path : KeyPath) (margin : Margin) : Prop where
  parents : ∀ k ∈ path.parents, k.Spelled
  leaf : path.leaf.IsTitle
  short : path.parents.length < depthLimit
  lead : IsGap margin.before.toList
  remark : IsRemark margin.after.toList

def Line.InFile : Line → Prop
  | .pair p => p.InFile
  | .header _ path margin => IsHeader path margin ∧ ∀ k ∈ path.parents, k.margin = {}

/-! ## Reading -/

theorem pairLine?_inFile {lead : String} {cs rest : List Char} {l : Line} (hl : IsGap lead.toList)
    (h : pairLine? lead cs = some (l, rest)) : l.InFile := by
  obtain ⟨⟨path, cs₁⟩, hp, h⟩ := Option.bind_eq_some_iff.mp h
  obtain ⟨cs₂, -, h⟩ := Option.bind_eq_some_iff.mp h
  obtain ⟨⟨n, cs₃⟩, hn, h⟩ := Option.bind_eq_some_iff.mp h
  obtain ⟨⟨after, cs₄⟩, ha, h⟩ := Option.bind_eq_some_iff.mp h
  cases h
  obtain ⟨hpath, hlen⟩ := path?_isRead (by simp [IsBlankText]) hp
  have hvalue := (node?_isGood depthLimit).isRead _ _ _ hn
  refine ⟨⟨isValue_withMargin hvalue.value _, ?_, fun k hk => ?_⟩, ?_⟩
  · exact ⟨(hpath.spelled _ (List.mem_append_right _ List.mem_cons_self)).withMargin _, hl, hpath.after,
      n, _, rfl, hvalue, blanks_fst _, isRemark_of_remark ha⟩
  · exact ⟨hpath.spelled k (List.mem_append_left _ hk), hpath.bare k hk⟩
  · rw [KeyPath.keys, List.length_append] at hlen
    exact hlen

theorem headerLine?_eq (lead : String) {cs : List Char} {array : Bool} (h : decide (cs.head? = some '[') = array) :
    headerLine? lead cs =
      (path? depthLimit "" (blanks (if array then cs.drop 1 else cs)).2).bind fun p =>
        (expect ']' p.2).bind fun cs₁ => (if array then expect ']' cs₁ else some cs₁).bind fun cs₂ =>
          (remark false cs₂).bind fun r => some
            (.header array (p.1.after (String.ofList (blanks (if array then cs.drop 1 else cs)).1))
              ⟨lead, kept r.1⟩, r.2) := by
  subst h
  unfold headerLine?
  by_cases hc : cs.head? = some '['
  · simp only [hc, ite_true, decide_true]
    rfl
  · simp only [hc, if_false, decide_false, Bool.false_eq_true]
    rfl

theorem headerLine?_inFile {lead : String} {cs rest : List Char} {l : Line} (hl : IsGap lead.toList)
    (h : headerLine? lead cs = some (l, rest)) : l.InFile := by
  rw [headerLine?_eq lead rfl] at h
  obtain ⟨⟨path, cs₁⟩, hp, h⟩ := Option.bind_eq_some_iff.mp h
  obtain ⟨cs₂, -, h⟩ := Option.bind_eq_some_iff.mp h
  obtain ⟨cs₃, -, h⟩ := Option.bind_eq_some_iff.mp h
  obtain ⟨⟨after, cs₄⟩, ha, h⟩ := Option.bind_eq_some_iff.mp h
  cases h
  obtain ⟨hpath, hlen⟩ := path?_isRead (by simp [IsBlankText]) hp
  refine ⟨⟨fun k hk => hpath.spelled k (List.mem_append_left _ hk), ⟨?_, blanks_fst _, hpath.after⟩, ?_, hl,
    isRemark_of_remark ha⟩, hpath.bare⟩
  · exact (hpath.spelled _ (List.mem_append_right _ List.mem_cons_self)).withMargin _
  · rw [KeyPath.keys, List.length_append] at hlen
    exact hlen

theorem lines?_inFile {fuel : Nat} {cs : List Char} {ls : List Line} {tail : String}
    (h : lines? fuel cs = some (ls, tail)) :
    (∀ l ∈ ls, l.InFile) ∧ IsTail tail.toList := by
  induction fuel generalizing cs ls with
  | zero => cases h
  | succ fuel ih =>
    obtain ⟨⟨lead, cs₁⟩, hlead, h⟩ := Option.bind_eq_some_iff.mp h
    simp only at h
    split at h
    · cases h
      exact ⟨by simp, isTail_of_trivia hlead⟩
    · obtain ⟨⟨l, cs₂⟩, hl, h⟩ := Option.bind_eq_some_iff.mp h
      obtain ⟨⟨ls', tail'⟩, hls, h⟩ := Option.bind_eq_some_iff.mp h
      cases h
      obtain ⟨hall, htail⟩ := ih hls
      have hgood := headerLine?_inFile (isGap_of_trivia hlead (List.cons_ne_nil _ _)) hl
      exact ⟨List.forall_mem_cons.mpr ⟨hgood, hall⟩, htail⟩
    · rename_i hne _
      obtain ⟨⟨l, cs₂⟩, hl, h⟩ := Option.bind_eq_some_iff.mp h
      obtain ⟨⟨ls', tail'⟩, hls, h⟩ := Option.bind_eq_some_iff.mp h
      cases h
      obtain ⟨hall, htail⟩ := ih hls
      have hgood := pairLine?_inFile (isGap_of_trivia hlead hne) hl
      exact ⟨List.forall_mem_cons.mpr ⟨hgood, hall⟩, htail⟩

/-! ## Reading again -/

/-- What reading a text line by line gives, however much fuel there is. -/
structure Reads (cs : List Char) (r : Option (List Line × String)) : Prop where
  lines : ∀ fuel, cs.length < fuel → lines? fuel cs = r
  unmarked : skipMark cs = cs

def prepend (ls : List Line) (r : Option (List Line × String)) : Option (List Line × String) :=
  r.map fun r => (ls ++ r.1, r.2)

theorem prepend_nil (r : Option (List Line × String)) : prepend [] r = r := by
  cases r <;> rfl

theorem prepend_append (as bs : List Line) (r : Option (List Line × String)) :
    prepend as (prepend bs r) = prepend (as ++ bs) r := by
  unfold prepend
  rw [Option.map_map]
  simp only [Function.comp_def, List.append_assoc]

section
variable {cs cs₁ lead rest : List Char} {l : Line} {r : Option (List Line × String)} {d : Char}

theorem skipMark_of_trivia (h : trivia false cs = some (lead, cs₁)) (hd : cs₁.head? ≠ some '\ufeff') :
    skipMark cs = cs := by
  refine skipMark_of_head fun he => ?_
  obtain ⟨cs', rfl⟩ := List.head?_eq_some_iff.mp he
  rw [trivia_solid ⟨'\ufeff', cs', rfl, rfl⟩] at h
  cases h
  exact hd rfl

theorem lines?_header_step (h : trivia false cs = some (lead, '[' :: cs₁)) (fuel : Nat) :
    lines? (fuel + 1) cs = (headerLine? (kept lead) cs₁).bind fun p => prepend [p.1] (lines? fuel p.2) := by
  rw [lines?, h]
  simp only [bind, Option.bind_some]
  refine congrArg (Option.bind _) (funext fun p => ?_)
  cases lines? fuel p.2 <;> rfl

theorem lines?_pair_step (h : trivia false cs = some (lead, d :: cs₁)) (hd : d ≠ '[') (fuel : Nat) :
    lines? (fuel + 1) cs = (pairLine? (kept lead) (d :: cs₁)).bind fun p => prepend [p.1] (lines? fuel p.2) := by
  rw [lines?, h]
  simp only [bind, Option.bind_some]
  split
  · rename_i he
    cases he
  · rename_i he
    exact absurd (List.cons.inj he).1 hd
  · refine congrArg (Option.bind _) (funext fun p => ?_)
    cases lines? fuel p.2 <;> rfl

theorem Reads.tail {tail : List Char} (h : IsTail tail) : Reads tail (some ([], kept tail)) := by
  refine ⟨fun fuel hfuel => ?_, skipMark_of_trivia h (by simp)⟩
  obtain ⟨fuel, rfl⟩ := Nat.exists_eq_succ_of_ne_zero (Nat.ne_of_gt (Nat.zero_lt_of_lt hfuel))
  rw [lines?, h]
  rfl

theorem Reads.header (h : trivia false cs = some (lead, '[' :: cs₁)) (hl : headerLine? (kept lead) cs₁ = some (l, rest))
    (hlen : rest.length < cs.length) (hr : Reads rest r) : Reads cs (prepend [l] r) := by
  refine ⟨fun fuel hfuel => ?_, skipMark_of_trivia h (by simp)⟩
  obtain ⟨fuel, rfl⟩ := Nat.exists_eq_succ_of_ne_zero (Nat.ne_of_gt (Nat.zero_lt_of_lt hfuel))
  rw [lines?_header_step h, hl, Option.bind_some, hr.lines fuel (Nat.lt_of_lt_of_le hlen (Nat.le_of_lt_succ hfuel))]

theorem Reads.none_of_header (h : trivia false cs = some (lead, '[' :: cs₁)) (hl : headerLine? (kept lead) cs₁ = none) :
    Reads cs none := by
  refine ⟨fun fuel hfuel => ?_, skipMark_of_trivia h (by simp)⟩
  obtain ⟨fuel, rfl⟩ := Nat.exists_eq_succ_of_ne_zero (Nat.ne_of_gt (Nat.zero_lt_of_lt hfuel))
  rw [lines?_header_step h, hl, Option.bind_none]

theorem Reads.pair (h : trivia false cs = some (lead, d :: cs₁)) (hd : startsKey d = true)
    (hl : pairLine? (kept lead) (d :: cs₁) = some (l, rest)) (hlen : rest.length < cs.length) (hr : Reads rest r) :
    Reads cs (prepend [l] r) := by
  refine ⟨fun fuel hfuel => ?_, skipMark_of_trivia h fun he => startsKey_ne hd (by decide) (Option.some.inj he)⟩
  obtain ⟨fuel, rfl⟩ := Nat.exists_eq_succ_of_ne_zero (Nat.ne_of_gt (Nat.zero_lt_of_lt hfuel))
  rw [lines?_pair_step h (startsKey_ne hd (by decide)), hl, Option.bind_some,
    hr.lines fuel (Nat.lt_of_lt_of_le hlen (Nat.le_of_lt_succ hfuel))]

end

/-! ## Lines with a key -/

theorem pairLine?_again {ks : List Key} {leaf : Key} {n : Node} (h : Pair.InFile ⟨⟨ks, leaf⟩, n⟩)
    (hd : n.misspells = false) (lead : String) (rest : List Char) :
    ∃ p, pairLine? lead ((pathText.inner (ks ++ [leaf])).toList ++
        (leaf.margin.after.toList ++ '=' :: (n.text.toList ++ '\n' :: rest))) = some (.pair p, rest) ∧
      p.core = (⟨⟨ks, leaf⟩, n⟩ : Pair).core := by
  have hline : IsLine IsBlanks IsBlanks IsRemark (node? depthLimit) leaf n := h.fits.line
  have hks : ∀ k ∈ ks ++ [leaf], k.Spelled :=
    List.forall_mem_append.mpr ⟨fun k hk => (h.fits.dotted k hk).spelled, List.forall_mem_singleton.mpr hline.spelled⟩
  obtain ⟨n₀, m, rfl, hn, hbefore, hafter⟩ := hline.value
  rw [Node.misspells_withMargin] at hd
  have hread := node?_isGood depthLimit
  obtain ⟨c, body, hbody, hc⟩ := hread.body_starts (hn.again hd)
  obtain ⟨n', hn', hcore⟩ := hn.again hd _ (hafter.isBreak rest)
  have hequals : blanks (leaf.margin.after.toList ++ '=' :: ((n₀.withMargin m).text.toList ++ '\n' :: rest)) =
      (leaf.margin.after.toList, '=' :: ((n₀.withMargin m).text.toList ++ '\n' :: rest)) :=
    blanks_append hline.pad (by decide) _
  have hvalue : blanks ((n₀.withMargin m).text.toList ++ '\n' :: rest) =
      (m.before.toList, n₀.body ++ (m.after.toList ++ '\n' :: rest)) := by
    rw [text_withMargin hn.value, List.append_assoc, List.append_assoc, hbody]
    exact blanks_append hbefore (isBlank_of_isSolid (isSolid_of_startsValue hc)) _
  obtain ⟨path, hp, hpath⟩ := path?_again hks (isKeyEnd_append hline.pad ⟨'=', _, rfl, by decide, by decide, by decide⟩)
    (by rw [hequals]; simp) depthLimit "" h.short
  rw [hequals] at hp
  refine ⟨⟨path.after lead, n'.withMargin ⟨String.ofList m.before.toList, kept m.after.toList⟩⟩, ?_, ?_⟩
  · rw [pairLine?, hp]
    simp only [bind, Option.bind_some, expect, ite_true, hvalue, hn', hafter rest]
  · rw [Pair.core, Pair.core, Node.core_withMargin, Node.core_withMargin, hcore, ← hpath]
    rfl

/-- **A line with a key is read again** in front of any text. -/
theorem Reads.line {p : Pair} (h : p.InFile) (hd : p.value.misspells = false) {rest : List Char}
    {r : Option (List Line × String)} (hr : Reads rest r) :
    ∃ p', p'.core = p.core ∧ Reads (p.text.toList ++ '\n' :: rest) (prepend [.pair p'] r) := by
  obtain ⟨⟨ks, leaf⟩, n⟩ := p
  have hline : IsLine IsBlanks IsBlanks IsRemark (node? depthLimit) leaf n := h.fits.line
  obtain ⟨p', hp', hcore⟩ := pairLine?_again h hd (kept leaf.margin.before.toList) rest
  obtain ⟨k, more, hk⟩ : ∃ k more, ks ++ [leaf] = k :: more := List.exists_cons_of_ne_nil (by simp)
  have hspelled : k.Spelled := by
    have hm : k ∈ ks ++ [leaf] := by rw [hk]; exact List.mem_cons_self
    rcases List.mem_append.mp hm with hm | hm
    · exact (h.fits.dotted k hm).spelled
    · rw [List.mem_singleton.mp hm]; exact hline.spelled
  obtain ⟨d, cs, hcs, hstart⟩ := head_inner hspelled more
    (leaf.margin.after.toList ++ '=' :: (n.text.toList ++ '\n' :: rest))
  rw [← hk] at hcs
  refine ⟨p', hcore, ?_⟩
  have hlen : rest.length < ((Pair.text ⟨⟨ks, leaf⟩, n⟩).toList ++ '\n' :: rest).length := by
    rw [List.length_append, List.length_cons]
    omega
  rw [Pair.toList_text] at hlen ⊢
  rw [hcs] at hlen hp' ⊢
  exact .pair (hline.lead _ ⟨d, cs, rfl, isSolid_of_startsKey hstart⟩) hstart hp' hlen hr

def lineChars (ps : List Pair) : List Char := ps.flatMap fun p => p.text.toList ++ ['\n']

theorem Reads.allLines {ps : List Pair} (hps : ∀ p ∈ ps, p.InFile ∧ p.value.misspells = false) {rest : List Char}
    {r : Option (List Line × String)} (hr : Reads rest r) :
    ∃ ps' : List Pair, ps'.map Pair.core = ps.map Pair.core ∧
      Reads (lineChars ps ++ rest) (prepend (ps'.map .pair) r) := by
  induction ps with
  | nil =>
    refine ⟨[], rfl, ?_⟩
    rw [List.map_nil, prepend_nil]
    exact hr
  | cons p ps ih =>
    rw [List.forall_mem_cons] at hps
    obtain ⟨ps', hcores, hps'⟩ := ih hps.2
    obtain ⟨p', hcore, hp'⟩ := hps'.line hps.1.1 hps.1.2
    refine ⟨p' :: ps', by rw [List.map_cons, List.map_cons, hcore, hcores], ?_⟩
    rw [prepend_append] at hp'
    rw [lineChars, List.flatMap_cons, List.append_assoc, List.append_assoc]
    exact hp'

/-! ## Headers -/

def headerText (array : Bool) (keys : List Key) (margin : Margin) : String :=
  margin.before ++ (if array then "[[" ++ pathText keys ++ "]]" else "[" ++ pathText keys ++ "]") ++
    margin.after ++ "\n"

theorem toList_headerText (array : Bool) (keys : List Key) (margin : Margin) (rest : List Char) :
    (headerText array keys margin).toList ++ rest = margin.before.toList ++ '[' :: ((if array then ['['] else []) ++
      ((pathText keys).toList ++ ']' :: ((if array then [']'] else []) ++ (margin.after.toList ++ '\n' :: rest)))) := by
  cases array <;> simp [headerText]

theorem headerLine?_brackets {cs : List Char} (h : cs.head? ≠ some '[') (array : Bool) (lead : String) :
    headerLine? lead ((if array then ['['] else []) ++ cs) =
      (path? depthLimit "" (blanks cs).2).bind fun p =>
        (expect ']' p.2).bind fun cs₁ => (if array then expect ']' cs₁ else some cs₁).bind fun cs₂ =>
          (remark false cs₂).bind fun r => some
            (.header array (p.1.after (String.ofList (blanks cs).1)) ⟨lead, kept r.1⟩, r.2) := by
  have ha : decide (((if array then ['['] else []) ++ cs).head? = some '[') = array := by
    cases array with
    | true => rfl
    | false => exact decide_eq_false h
  rw [headerLine?_eq lead ha]
  cases array <;> rfl

theorem headerLine?_again {ks : List Key} {leaf : Key} {margin : Margin} (h : IsHeader ⟨ks, leaf⟩ margin) (array : Bool)
    (lead : String) (rest : List Char) :
    ∃ path margin', headerLine? lead ((if array then ['['] else []) ++ ((pathText (ks ++ [leaf])).toList ++
        ']' :: ((if array then [']'] else []) ++ (margin.after.toList ++ '\n' :: rest)))) =
          some (.header array path margin', rest) ∧
      path.core = (⟨ks, leaf⟩ : KeyPath).core := by
  have hks : ∀ k ∈ ks ++ [leaf], k.Spelled :=
    List.forall_mem_append.mpr ⟨h.parents, List.forall_mem_singleton.mpr h.leaf.spelled⟩
  obtain ⟨k, more, hk⟩ : ∃ k more, ks ++ [leaf] = k :: more := List.exists_cons_of_ne_nil (by simp)
  obtain ⟨d, cs, hcs, hstart⟩ := head_inner (hks k (by rw [hk]; exact List.mem_cons_self)) more
    (leaf.margin.after.toList ++ ']' :: ((if array then [']'] else []) ++ (margin.after.toList ++ '\n' :: rest)))
  rw [← hk] at hcs
  have hbracket : blanks (leaf.margin.after.toList ++
      ']' :: ((if array then [']'] else []) ++ (margin.after.toList ++ '\n' :: rest))) =
        (leaf.margin.after.toList, ']' :: ((if array then [']'] else []) ++ (margin.after.toList ++ '\n' :: rest))) :=
    blanks_append h.leaf.after (by decide) _
  obtain ⟨path, hp, hpath⟩ :=
    path?_again hks (isKeyEnd_append h.leaf.after ⟨']', _, rfl, by decide, by decide, by decide⟩)
    (by rw [hbracket]; simp) depthLimit "" h.short
  rw [hbracket, hcs] at hp
  have hpre : blanks (leaf.margin.before.toList ++ d :: cs) = (leaf.margin.before.toList, d :: cs) :=
    blanks_append h.leaf.before (isBlank_of_isSolid (isSolid_of_startsKey hstart)) _
  have hhead : (leaf.margin.before.toList ++ d :: cs).head? ≠ some '[' := by
    rcases hb : leaf.margin.before.toList with _ | ⟨b, bs⟩
    · exact fun he => startsKey_ne hstart (by decide) (Option.some.inj he)
    · intro he
      have hblank := h.leaf.before b (by rw [hb]; exact List.mem_cons_self)
      rw [Option.some.inj he] at hblank
      cases hblank
  refine ⟨path.after (String.ofList leaf.margin.before.toList), ⟨lead, kept margin.after.toList⟩, ?_, ?_⟩
  · rw [toList_pathText, List.append_assoc, List.append_assoc, hcs, headerLine?_brackets hhead, hpre]
    simp only [hp, Option.bind_some, expect, ite_true]
    cases array
    · simp only [Bool.false_eq_true, ite_false, List.nil_append, Option.bind_some, h.remark rest]
    · simp only [ite_true, List.cons_append, List.nil_append, Option.bind_some, h.remark rest]
  · rw [← hpath]
    rfl

/-- **A header is read again.** -/
theorem Reads.title {path : KeyPath} {margin : Margin} (h : IsHeader path margin) (array : Bool) {rest : List Char}
    {r : Option (List Line × String)} (hr : Reads rest r) :
    ∃ path' margin', path'.core = path.core ∧
      Reads ((headerText array path.keys margin).toList ++ rest) (prepend [.header array path' margin'] r) := by
  obtain ⟨ks, leaf⟩ := path
  obtain ⟨path', margin', hl, hcore⟩ := headerLine?_again h array (kept margin.before.toList) rest
  refine ⟨path', margin', hcore, ?_⟩
  rw [toList_headerText]
  refine .header (h.lead _ ⟨'[', _, rfl, rfl⟩) hl ?_ hr
  simp only [List.length_append, List.length_cons]
  omega

theorem path?_eq_none {c : Char} (h : startsKey c = false) (fuel : Nat) (before : String) (cs : List Char) :
    path? fuel before (c :: cs) = none := by
  have hk : key? (c :: cs) = none := by
    cases hk : key? (c :: cs) with
    | none => rfl
    | some r => rw [startsKey_of_key? hk] at h; cases h
  rcases fuel with _ | fuel
  · rfl
  · rw [path?, hk]
    rfl

theorem blanks_of_gap {g : List Char} (hg : IsGap g) (hn : ¬ IsBlanks g) (cs : List Char) :
    ∃ c r, (blanks (g ++ cs)).2 = c :: r ∧ startsKey c = false := by
  rcases hb : g.dropWhile isBlank with _ | ⟨c, r⟩
  · exact absurd (List.dropWhile_eq_nil_iff.mp hb) hn
  · have hdrop (cs : List Char) : (blanks (g ++ cs)).2 = c :: (r ++ cs) := by
      unfold blanks
      rw [List.dropWhile_append, hb]
      rfl
    refine ⟨c, r ++ cs, hdrop cs, ?_⟩
    obtain ⟨g', ht⟩ := trivia_dropBlanks (hg [']'] ⟨']', [], rfl, rfl⟩)
    rw [hdrop] at ht
    have hbreak : isBreak c = true := by
      rcases trivia_cons_cases ht with ⟨b, -, hm, -⟩ | ⟨rfl, -⟩ | ⟨-, -, he⟩
      · exact isBreak_of_modeAfter hm
      · rfl
      · rw [← (List.cons.inj he).1]; rfl
    exact eq_false_of_isBreak hbreak (by decide)

/-- A header whose key has a comment or a line end before it is none. -/
theorem Reads.none_of_gap {k : Key} {margin : Margin} (hm : IsGap margin.before.toList)
    (hk : IsGap k.margin.before.toList) (hn : ¬ IsBlanks k.margin.before.toList) (rest : List Char) :
    Reads ((headerText false [k] margin).toList ++ rest) none := by
  rw [toList_headerText]
  refine .none_of_header (hm _ ⟨'[', _, rfl, rfl⟩) ?_
  have htext (cs : List Char) : (pathText [k]).toList ++ cs =
      k.margin.before.toList ++ (k.spelling.toList ++ (k.margin.after.toList ++ cs)) := by
    rw [← List.nil_append [k], toList_pathText]
    simp [pathText.inner]
  have hhead (cs : List Char) : ((pathText [k]).toList ++ cs).head? ≠ some '[' := by
    rw [htext]
    rcases hb : k.margin.before.toList with _ | ⟨c, g⟩
    · rw [hb] at hn
      exact absurd (by simp [IsBlanks]) hn
    · rw [hb] at hk
      have hbreak := isBreak_of_trivia (hk [']'] ⟨']', [], rfl, rfl⟩)
      rintro he
      rw [Option.some.inj he] at hbreak
      cases hbreak
  obtain ⟨c, r, hc, hstart⟩ := blanks_of_gap hk hn
    (k.spelling.toList ++ (k.margin.after.toList ++ ']' :: ([] ++ (margin.after.toList ++ '\n' :: rest))))
  have hp := path?_eq_none hstart depthLimit "" r
  rw [← hc, ← htext] at hp
  refine (headerLine?_brackets (hhead _) false _).trans ?_
  simp only [Bool.false_eq_true, ite_false, hp, Option.bind_none]

/-! ## Sections -/

def Headed.lines (s : Headed) : List Line := .header s.array s.path s.margin :: s.pairs.map .pair

def Headed.chars (s : Headed) : List Char := (headerText s.array s.path.keys s.margin).toList ++ lineChars s.pairs

/-- A section that is read again in its text. -/
structure Headed.IsReadable (s : Headed) : Prop where
  header : IsHeader s.path s.margin
  pairs : ∀ p ∈ s.pairs, p.InFile ∧ p.value.misspells = false

section
variable {rest : List Char} {r : Option (List Line × String)}

theorem Reads.sections {ss : List Headed} (hss : ∀ s ∈ ss, s.IsReadable) (hr : Reads rest r) :
    ∃ ss' : List Headed, ss'.map Headed.core = ss.map Headed.core ∧
      Reads (ss.flatMap Headed.chars ++ rest) (prepend (ss'.flatMap Headed.lines) r) := by
  induction ss with
  | nil => exact ⟨[], rfl, by rw [List.flatMap_nil, List.flatMap_nil, prepend_nil]; exact hr⟩
  | cons s ss ih =>
    rw [List.forall_mem_cons] at hss
    obtain ⟨ss', hcores, hss'⟩ := ih hss.2
    obtain ⟨ps, hps, hpairs⟩ := hss'.allLines hss.1.pairs
    obtain ⟨path, margin, hpath, htitle⟩ := hpairs.title hss.1.header s.array
    refine ⟨⟨s.array, path, margin, ps⟩ :: ss', ?_, ?_⟩
    · have hcore : Headed.core ⟨s.array, path, margin, ps⟩ = s.core := by
        rw [Headed.core, Headed.core, hpath, hps]
      rw [List.map_cons, List.map_cons, hcore, hcores]
    · rw [prepend_append, prepend_append] at htitle
      rw [List.flatMap_cons, Headed.chars, List.append_assoc, List.append_assoc]
      exact htitle

theorem Reads.newPairs {qs : List (String × Scalar)} (hk : ∀ q ∈ qs, IsBareName q.1) (hv : ∀ q ∈ qs, q.2.IsPlain)
    (hr : Reads rest r) : Reads (qs.flatMap pairChars ++ rest) (prepend ((qs.map pairOf).map .pair) r) := by
  induction qs with
  | nil => rw [List.map_nil, List.map_nil, prepend_nil]; exact hr
  | cons q qs ih =>
    rw [List.forall_mem_cons] at hk hv
    have hqs := ih hk.2 hv.2
    rw [List.flatMap_cons, List.append_assoc, List.map_cons, List.map_cons]
    refine ⟨fun fuel hfuel => ?_, skipMark_of_head ?_⟩
    · obtain ⟨fuel, rfl⟩ := Nat.exists_eq_succ_of_ne_zero (Nat.ne_of_gt (Nat.zero_lt_of_lt hfuel))
      have hlen : (qs.flatMap pairChars ++ rest).length < fuel := by
        rw [List.length_append, pairChars] at hfuel
        simp only [List.length_append, List.length_cons] at hfuel ⊢
        omega
      rw [lines?_pair hk.1 hv.1, hqs.lines fuel hlen]
      exact prepend_append [.pair (pairOf q)] _ r
    · obtain ⟨c, name, hname⟩ := List.exists_cons_of_ne_nil hk.1.1
      have hc : isBare c = true := List.all_eq_true.mp hk.1.2 c (by rw [hname]; exact List.mem_cons_self)
      rw [pairChars, hname]
      exact fun he => ne_of_isBare hc (by decide) (Option.some.inj he)

end

theorem headed_lines (ps : List Pair) (ss : List Headed) :
    headed (ps.map .pair ++ ss.flatMap Headed.lines) = (ps, ss) := by
  induction ss generalizing ps with
  | nil =>
    induction ps with
    | nil => rfl
    | cons p ps ih => rw [List.map_cons, List.cons_append, headed, ih]
  | cons s ss ih =>
    induction ps with
    | nil =>
      rw [List.flatMap_cons, Headed.lines, List.cons_append, List.map_nil, List.nil_append, headed, ih]
    | cons p ps ih => rw [List.map_cons, List.cons_append, headed, ih]

theorem headed_inFile {ls : List Line} (h : ∀ l ∈ ls, l.InFile) :
    (∀ p ∈ (headed ls).1, p.InFile) ∧ ∀ s ∈ (headed ls).2, IsHeader s.path s.margin ∧
      (∀ k ∈ s.path.parents, k.margin = {}) ∧ ∀ p ∈ s.pairs, p.InFile := by
  induction ls with
  | nil => simp [headed]
  | cons l ls ih =>
    rw [List.forall_mem_cons] at h
    obtain ⟨hpairs, hsections⟩ := ih h.2
    cases l with
    | pair p => exact ⟨List.forall_mem_cons.mpr ⟨h.1, hpairs⟩, hsections⟩
    | header array path margin =>
      exact ⟨by simp [headed], List.forall_mem_cons.mpr ⟨⟨h.1.1, h.1.2, hpairs⟩, hsections⟩⟩

end Broadcast.Toml
