import Broadcast.Proofs.Toml.Core
import Broadcast.Toml.Printer

/-!
# The lines of a table

A table of keys with values, some of them dotted, is printed line by line, dotted
keys with a common beginning together. Building a table from these lines gives
the table itself. Its lines are those it was built from, perhaps in another order
and with dotted keys spelled as they were first.
-/

namespace Broadcast.Toml

open Entries

def Pair.under (k : Key) (p : Pair) : Pair := ⟨⟨k :: p.path.parents, p.path.leaf⟩, p.value⟩

mutual
/-- The lines of a table, in the order in which they are printed. -/
def ownLines : List (Key × Node) → List Pair
  | [] => []
  | (k, n) :: es => n.ownLines k ++ ownLines es
def Node.ownLines (k : Key) : Node → List Pair
  | .table .dotted sub => (Toml.ownLines sub).map (Pair.under k)
  | n => if n.isValue then [⟨⟨[], k⟩, n⟩] else []
end

def Pair.text (p : Pair) : String := pathText p.path.keys ++ "=" ++ p.value.text

theorem Node.ownLines_of_isValue {n : Node} (h : n.isValue = true) (k : Key) : n.ownLines k = [⟨⟨[], k⟩, n⟩] := by
  rw [ownLines, if_pos h]
  rintro sub rfl
  cases h

theorem ownLines_append (as bs : Entries) : ownLines (as ++ bs) = ownLines as ++ ownLines bs := by
  induction as with
  | nil => rfl
  | cons e as ih => rw [List.cons_append, ← Prod.eta e, ownLines, ih, ownLines, List.append_assoc]

theorem ownLines_append_cons (as : Entries) (k : Key) (n : Node) (bs : Entries) :
    ownLines (as ++ (k, n) :: bs) = ownLines as ++ (n.ownLines k ++ ownLines bs) := by
  rw [ownLines_append, ownLines]

def Pair.textUnder (path : List Key) (p : Pair) : String := pathText (path ++ p.path.keys) ++ "=" ++ p.value.text

theorem pairTexts_eq : ∀ (path : List Key) (es : List (Key × Node)),
    pairTexts path es = (ownLines es).map (Pair.textUnder path)
  | _, [] => rfl
  | path, (k, n) :: es => by
    by_cases hd : ∃ sub, n = .table .dotted sub
    · obtain ⟨sub, rfl⟩ := hd
      rw [pairTexts, pairTexts_eq (path ++ [k]) sub, pairTexts_eq path es, ownLines, Node.ownLines, List.map_append,
        List.map_map]
      refine congrArg (· ++ _) (List.map_congr_left fun p _ => ?_)
      simp [Pair.textUnder, Pair.under, KeyPath.keys]
    · have hd (sub : Entries) : n ≠ .table .dotted sub := fun h => hd ⟨sub, h⟩
      rw [pairTexts, pairTexts_eq path es, ownLines, List.map_append, Node.ownLines]
      · split <;> rfl
      · exact hd
      · exact hd

/-! ## Adding a line -/

/-- What adding a line to a table of values and dotted keys does: the tables on
its way are found or made. -/
inductive Added (leaf : Key) (n : Node) : List Key → Entries → Entries → Prop
  | here {es : Entries} : leaf.name ∉ names es → Added leaf n [] es (es ++ [(leaf, n)])
  | made {k : Key} {ks : List Key} {es sub : Entries} : k.name ∉ names es → Added leaf n ks [] sub →
      Added leaf n (k :: ks) es (es ++ [(k, .table .dotted sub)])
  | found {k k' : Key} {ks : List Key} {as bs sub sub' : Entries} : k'.name = k.name → Added leaf n ks sub sub' →
      Added leaf n (k :: ks) (as ++ (k', .table .dotted sub) :: bs) (as ++ (k', .table .dotted sub') :: bs)

inductive OwnEntry (line : Key → Node → Prop) (dotted : Key → Prop) : Key × Node → Prop
  | value {k : Key} {n : Node} : n.isValue = true → line k n → OwnEntry line dotted (k, n)
  | dotted {k : Key} {sub : Entries} : dotted k → sub ≠ [] → (names sub).Nodup →
      (∀ e ∈ sub, OwnEntry line dotted e) → OwnEntry line dotted (k, .table .dotted sub)

/-- A table with nothing but lines of its own. -/
structure Own (line : Key → Node → Prop) (dotted : Key → Prop) (es : Entries) : Prop where
  distinct : (names es).Nodup
  entries : ∀ e ∈ es, OwnEntry line dotted e

variable {line : Key → Node → Prop} {dotted : Key → Prop} {leaf : Key} {n : Node} {es es' : Entries}

theorem Own.nil : Own line dotted [] := ⟨.nil, by simp⟩

theorem OwnEntry.ownLines_ne_nil {e : Key × Node} (h : OwnEntry line dotted e) : e.2.ownLines e.1 ≠ [] := by
  induction h with
  | @value k n hv => rw [Node.ownLines_of_isValue hv]; exact List.cons_ne_nil _ _
  | @dotted k sub _ hne _ _ ih =>
    obtain ⟨⟨k', n'⟩, es, rfl⟩ := List.exists_cons_of_ne_nil hne
    intro he
    rw [Node.ownLines, List.map_eq_nil_iff, ownLines, List.append_eq_nil_iff] at he
    exact ih _ List.mem_cons_self he.1

theorem Own.of_find? {name : String} (h : Own line dotted es) (hf : find? name es = some n) :
    n.isValue = true ∨ ∃ sub, n = .table .dotted sub ∧ Own line dotted sub := by
  obtain ⟨as, k, bs, rfl, -⟩ := split hf h.distinct
  have he := h.entries (k, n) (List.mem_append_right as List.mem_cons_self)
  cases he with
  | value hv => exact .inl hv
  | dotted hk hne hd hes => exact .inr ⟨_, rfl, hd, hes⟩

theorem addPair_value {k : Key} {m : Node} (hf : find? k.name es = some m) (hv : m.isValue = true) (ks : List Key) :
    addPair leaf n (k :: ks) es = none := by
  rcases ks with _ | ⟨next, ks⟩ <;> rw [addPair, hf] <;> cases m with
  | table form sub => cases form <;> first | rfl | cases hv
  | tables elements => cases hv
  | _ => rfl

theorem addPair_cons {k : Key} {ks : List Key} (h : Own line dotted es) (ha : addPair leaf n (k :: ks) es = some es') :
    (find? k.name es = none ∧ ∃ sub, addPair leaf n ks [] = some sub ∧ es' = es ++ [(k, .table .dotted sub)]) ∨
      ∃ sub sub', find? k.name es = some (.table .dotted sub) ∧ addPair leaf n ks sub = some sub' ∧
        es' = replace k.name (.table .dotted sub') es := by
  cases hf : find? k.name es with
  | none =>
    refine .inl ⟨rfl, ?_⟩
    rcases ks with _ | ⟨next, ks⟩
    · rw [addPair, hf] at ha
      exact ⟨_, rfl, (Option.some.inj ha).symm⟩
    · rw [addPair, hf] at ha
      obtain ⟨sub, hs, rfl⟩ := Option.map_eq_some_iff.mp ha
      exact ⟨sub, hs, rfl⟩
  | some m =>
    refine .inr ?_
    rcases h.of_find? hf with hv | ⟨sub, rfl, -⟩
    · rw [addPair_value hf hv] at ha
      cases ha
    · rcases ks with _ | ⟨next, ks⟩
      · rw [addPair, hf] at ha
        simp only at ha
        split at ha
        · cases ha
        · rename_i hc
          exact ⟨sub, _, rfl, by rw [addPair, if_neg hc], (Option.some.inj ha).symm⟩
      · rw [addPair, hf] at ha
        obtain ⟨sub', hs, rfl⟩ := Option.map_eq_some_iff.mp ha
        exact ⟨sub, sub', rfl, hs, rfl⟩

theorem added_of_addPair {ks : List Key} (h : Own line dotted es) (ha : addPair leaf n ks es = some es') :
    Added leaf n ks es es' := by
  induction ks generalizing es es' with
  | nil =>
    rw [addPair] at ha
    split at ha
    · cases ha
    · rename_i hc
      cases ha
      exact .here (contains_eq_false_iff.mp (Bool.eq_false_iff.mpr hc))
  | cons k ks ih =>
    rcases addPair_cons h ha with ⟨hf, sub, hs, rfl⟩ | ⟨sub, sub', hf, hs, rfl⟩
    · exact .made (find?_eq_none_iff.mp hf) (ih .nil hs)
    · obtain ⟨as, k', bs, rfl, hk, hr, -⟩ := split hf h.distinct
      rw [hr]
      rcases h.of_find? hf with hv | ⟨sub, he, ho⟩
      · cases hv
      · cases he
        exact .found hk (ih ho hs)

theorem Added.ne_nil {ks : List Key} (h : Added leaf n ks es es') : es' ≠ [] := by
  cases h <;> simp

theorem Added.distinct {ks : List Key} (h : Added leaf n ks es es') (hd : (names es).Nodup) : (names es').Nodup := by
  cases h with
  | here hn => exact distinct_append hd hn n
  | made hn => exact distinct_append hd hn _
  | found => exact distinct_exchange hd _

theorem Own.of_added {ks : List Key} (h : Own line dotted es) (hv : n.isValue = true) (hl : line leaf n)
    (hks : ∀ k ∈ ks, dotted k) (ha : Added leaf n ks es es') : Own line dotted es' := by
  refine ⟨ha.distinct h.distinct, ?_⟩
  induction ha with
  | here hn => exact forall_append_single h.entries (.value hv hl)
  | @made k ks es sub hn hs ih =>
    have hsub := ih .nil fun k' hk' => hks k' (List.mem_cons_of_mem k hk')
    exact forall_append_single h.entries (.dotted (hks k List.mem_cons_self) hs.ne_nil (hs.distinct .nil) hsub)
  | @found k k' ks as bs sub sub' hk hs ih =>
    have hold := h.entries (k', .table .dotted sub) (List.mem_append_right as List.mem_cons_self)
    cases hold with
    | value hv' => cases hv'
    | dotted hk' hne hd hes =>
      have hsub := ih ⟨hd, hes⟩ fun k' hk' => hks k' (List.mem_cons_of_mem k hk')
      exact forall_exchange h.entries (.dotted hk' hs.ne_nil (hs.distinct hd) hsub)

theorem map_core_under (k : Key) (ps : List Pair) :
    (ps.map (Pair.under k)).map Pair.core = (ps.map Pair.core).map (Pair.under k.core) := by
  rw [List.map_map, List.map_map]
  rfl

theorem Key.core_of_name {k k' : Key} (h : k'.name = k.name) : k'.core = k.core := by
  unfold Key.core
  rw [h]

theorem perm_of_added {ks : List Key} (hv : n.isValue = true) (ha : Added leaf n ks es es') :
    ((ownLines es').map Pair.core).Perm ((ownLines es).map Pair.core ++ [(⟨⟨ks, leaf⟩, n⟩ : Pair).core]) := by
  induction ha with
  | here hn => rw [ownLines_append_cons, Node.ownLines_of_isValue hv, ownLines, List.map_append]; rfl
  | @made k ks es sub hn hs ih =>
    rw [ownLines_append_cons, Node.ownLines, ownLines, List.append_nil, List.map_append, map_core_under]
    exact (ih.map (Pair.under k.core)).append_left _
  | @found k k' ks as bs sub sub' hk hs ih =>
    rw [ownLines_append_cons, ownLines_append_cons, Node.ownLines, Node.ownLines, List.map_append, List.map_append,
      List.map_append, List.map_append, map_core_under, map_core_under, Key.core_of_name hk, List.append_assoc,
      List.append_assoc]
    have hsub := ih.map (Pair.under k.core)
    rw [List.map_append] at hsub
    refine List.Perm.append_left _ ((hsub.append_right _).trans ?_)
    rw [List.append_assoc]
    exact List.Perm.append_left _ List.perm_append_comm

/-! ## Adding all lines -/

structure Pair.Fits (line : Key → Node → Prop) (dotted : Key → Prop) (p : Pair) : Prop where
  value : p.value.isValue = true
  line : line p.path.leaf p.value
  dotted : ∀ k ∈ p.path.parents, dotted k

theorem own_of_addPairs {ps : List Pair} (hps : ∀ p ∈ ps, p.Fits line dotted) (h : Own line dotted es)
    (ha : addPairs es ps = some es') :
    Own line dotted es' ∧ ((ownLines es').map Pair.core).Perm ((ownLines es).map Pair.core ++ ps.map Pair.core) := by
  induction ps generalizing es with
  | nil =>
    cases ha
    exact ⟨h, by rw [List.map_nil, List.append_nil]⟩
  | cons p ps ih =>
    obtain ⟨es₁, hp, ha⟩ := Option.bind_eq_some_iff.mp ha
    have hfit := hps p List.mem_cons_self
    have hadd := added_of_addPair h hp
    obtain ⟨ho, hperm⟩ := ih (fun q hq => hps q (List.mem_cons_of_mem p hq))
      (h.of_added hfit.value hfit.line hfit.dotted hadd) ha
    refine ⟨ho, hperm.trans (((perm_of_added hfit.value hadd).append_right _).trans ?_)⟩
    rw [List.append_assoc]
    exact .rfl

theorem mem_ownLines {p : Pair} : p ∈ ownLines es ↔ ∃ e ∈ es, p ∈ e.2.ownLines e.1 := by
  induction es with
  | nil => simp [ownLines]
  | cons e es ih => rw [← Prod.eta e, ownLines, List.mem_append, ih]; simp

theorem OwnEntry.fits {e : Key × Node} (h : OwnEntry line dotted e) : ∀ p ∈ e.2.ownLines e.1, p.Fits line dotted := by
  induction h with
  | @value k n hv hl =>
    rw [Node.ownLines_of_isValue hv]
    intro p hp
    rw [List.mem_singleton.mp hp]
    exact ⟨hv, hl, by simp⟩
  | @dotted k sub hk _ _ _ ih =>
    rw [Node.ownLines]
    intro p hp
    obtain ⟨q, hq, rfl⟩ := List.mem_map.mp hp
    obtain ⟨e, he, hq⟩ := mem_ownLines.mp hq
    have hfit := ih e he q hq
    exact ⟨hfit.value, hfit.line, List.forall_mem_cons.mpr ⟨hk, hfit.dotted⟩⟩

theorem Own.fits (h : Own line dotted es) : ∀ p ∈ ownLines es, p.Fits line dotted := by
  intro p hp
  obtain ⟨e, he, hp⟩ := mem_ownLines.mp hp
  exact (h.entries e he).fits p hp

/-! ## The lines build the table -/

theorem addPairs_append (ps qs : List Pair) (es : Entries) :
    addPairs es (ps ++ qs) = (addPairs es ps).bind fun es => addPairs es qs := by
  induction ps generalizing es with
  | nil => rfl
  | cons p ps ih =>
    rw [List.cons_append, addPairs, addPairs]
    show Option.bind _ _ = Option.bind (Option.bind _ _) _
    rw [Option.bind_assoc]
    exact congrArg _ (funext ih)

theorem addPair_absent {k : Key} (h : k.name ∉ names es) (leaf : Key) (n : Node) (ks : List Key) :
    addPair leaf n (k :: ks) es = (addPair leaf n ks []).map fun sub => es ++ [(k, .table .dotted sub)] := by
  rcases ks with _ | ⟨next, ks⟩ <;> simp only [addPair, find?_eq_none_iff.mpr h]
  rfl

theorem addPair_dotted {k : Key} {sub : Entries} (h : find? k.name es = some (.table .dotted sub)) (leaf : Key)
    (n : Node) (ks : List Key) :
    addPair leaf n (k :: ks) es = (addPair leaf n ks sub).map fun sub => replace k.name (.table .dotted sub) es := by
  rcases ks with _ | ⟨next, ks⟩ <;> simp only [addPair, h]
  split <;> rfl

theorem addPairs_under {k : Key} {sub : Entries} (as : Entries) (hk : k.name ∉ names as) (ps : List Pair) :
    addPairs (as ++ [(k, .table .dotted sub)]) (ps.map (Pair.under k)) =
      (addPairs sub ps).map fun sub => as ++ [(k, .table .dotted sub)] := by
  induction ps generalizing sub with
  | nil => rfl
  | cons p ps ih =>
    have hf : find? k.name (as ++ [(k, .table .dotted sub)]) = some (.table .dotted sub) := by
      rw [find?_append, find?_eq_none_iff.mpr hk, find?_cons_self rfl]; rfl
    have hr (sub' : Entries) : replace k.name (.table .dotted sub') (as ++ [(k, .table .dotted sub)]) =
        as ++ [(k, .table .dotted sub')] := by
      rw [replace_append, replace_of_notMem hk, replace_cons_self rfl]; rfl
    rw [List.map_cons, addPairs, addPairs]
    show Option.bind (addPair p.path.leaf p.value (k :: p.path.parents) _) _ = Option.map _ (Option.bind _ _)
    rw [addPair_dotted hf]
    simp only [hr]
    cases addPair p.path.leaf p.value p.path.parents sub with
    | none => rfl
    | some sub' => exact ih

theorem addPairs_under_absent {k : Key} {as : Entries} (hk : k.name ∉ names as) {ps : List Pair} (hne : ps ≠ []) :
    addPairs as (ps.map (Pair.under k)) = (addPairs [] ps).map fun sub => as ++ [(k, .table .dotted sub)] := by
  rcases ps with _ | ⟨p, ps⟩
  · exact absurd rfl hne
  · rw [List.map_cons, addPairs, addPairs]
    show Option.bind (addPair p.path.leaf p.value (k :: p.path.parents) _) _ = Option.map _ (Option.bind _ _)
    rw [addPair_absent hk]
    cases addPair p.path.leaf p.value p.path.parents [] with
    | none => rfl
    | some sub => exact addPairs_under as hk ps

theorem addPairs_of_entries {as es : Entries} (hd : (names (as ++ es)).Nodup)
    (h : ∀ e ∈ es, ∀ bs : Entries, e.1.name ∉ names bs → addPairs bs (e.2.ownLines e.1) = some (bs ++ [e])) :
    addPairs as (ownLines es) = some (as ++ es) := by
  induction es generalizing as with
  | nil => rw [List.append_nil]; rfl
  | cons e es ih =>
    have hn : e.1.name ∉ names as := by
      rw [names_append, names_cons, List.nodup_middle, List.nodup_cons, List.mem_append, not_or] at hd
      exact hd.1.1
    rw [← Prod.eta e, ownLines, addPairs_append, h e List.mem_cons_self as hn, Option.bind_some]
    have hrest : addPairs (as ++ [e]) (ownLines es) = some (as ++ [e] ++ es) :=
      ih (by rw [List.append_assoc]; exact hd) fun e' he' => h e' (List.mem_cons_of_mem e he')
    rw [List.append_assoc] at hrest
    exact hrest

theorem OwnEntry.addPairs {e : Key × Node} (h : OwnEntry line dotted e) (as : Entries) (hn : e.1.name ∉ names as) :
    addPairs as (e.2.ownLines e.1) = some (as ++ [e]) := by
  induction h generalizing as with
  | @value k n hv =>
    rw [Node.ownLines_of_isValue hv, Toml.addPairs, addPair,
      if_neg (Bool.eq_false_iff.mp (contains_eq_false_iff.mpr hn))]
    rfl
  | @dotted k sub hk hne hd hes ih =>
    have hl : ownLines sub ≠ [] := fun he =>
      (OwnEntry.dotted hk hne hd hes).ownLines_ne_nil (by rw [Node.ownLines, he, List.map_nil])
    have hsub : Toml.addPairs [] (ownLines sub) = some ([] ++ sub) := addPairs_of_entries hd ih
    rw [Node.ownLines, addPairs_under_absent hn hl, hsub]
    rfl

/-- **The lines of a table build the table.** -/
theorem addPairs_ownLines (h : Own line dotted es) : addPairs [] (ownLines es) = some es := by
  have hes : addPairs [] (ownLines es) = some ([] ++ es) :=
    addPairs_of_entries h.distinct fun e he => (h.entries e he).addPairs
  exact hes

theorem addPairs_of_cores (h : Own line dotted es) {ps : List Pair}
    (hps : ps.map Pair.core = (ownLines es).map Pair.core) :
    ∃ es', addPairs [] ps = some es' ∧ entryCores es' = entryCores es := by
  have hc := addPairs_core_nil ps
  rw [hps, addPairs_core_nil, addPairs_ownLines h] at hc
  obtain ⟨es', he, hes⟩ := Option.map_eq_some_iff.mp hc.symm
  exact ⟨es', he, hes⟩

end Broadcast.Toml
