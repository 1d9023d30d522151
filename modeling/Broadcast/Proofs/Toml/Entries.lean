import Broadcast.Toml.Reader
import Mathlib.Data.List.Nodup

/-!
# Tables by name

What looking up, exchanging and removing an entry have to do with each other.
A table without a name twice falls apart around the entry of a name. What
happens under one name of a table leaves the entries of other names alone.
-/

namespace Broadcast.Toml.Entries

def names (es : Entries) : List String := es.map fun e => e.1.name

theorem names_append (as bs : Entries) : names (as ++ bs) = names as ++ names bs := List.map_append

theorem names_cons (e : Key × Node) (es : Entries) : names (e :: es) = e.1.name :: names es := rfl

theorem name_mem {e : Key × Node} {es : Entries} (h : e ∈ es) : e.1.name ∈ names es :=
  List.mem_map_of_mem (f := fun e => e.1.name) h

theorem find?_append (name : String) (as bs : Entries) :
    find? name (as ++ bs) = (find? name as).or (find? name bs) := by
  unfold find?
  rw [List.find?_append]
  cases List.find? (fun e => e.1.name == name) as <;> rfl

theorem find?_cons_self {k : Key} {name : String} (h : k.name = name) (n : Node) (es : Entries) :
    find? name ((k, n) :: es) = some n := by
  simp [find?, h]

theorem find?_eq_none_iff {name : String} {es : Entries} : find? name es = none ↔ name ∉ names es := by
  unfold find? names
  rw [Option.map_eq_none_iff, List.find?_eq_none, List.mem_map]
  simp only [beq_iff_eq, not_exists, not_and]

theorem contains_eq_false_iff {name : String} {es : Entries} : contains name es = false ↔ name ∉ names es := by
  unfold contains
  rw [Option.isSome_eq_false_iff, Option.isNone_iff_eq_none, find?_eq_none_iff]

theorem contains_iff {name : String} {es : Entries} : contains name es = true ↔ name ∈ names es := by
  rw [← not_iff_not, Bool.not_eq_true, contains_eq_false_iff]

theorem replace_append (name : String) (n : Node) (as bs : Entries) :
    replace name n (as ++ bs) = replace name n as ++ replace name n bs := List.map_append

theorem replace_cons_self {k : Key} {name : String} (h : k.name = name) (m n : Node) (es : Entries) :
    replace name n ((k, m) :: es) = (k, n) :: replace name n es := by
  simp [replace, h]

theorem replace_of_notMem {name : String} {es : Entries} (h : name ∉ names es) (n : Node) : replace name n es = es := by
  refine (List.map_congr_left fun e he => ?_).trans (List.map_id es)
  have hne : e.1.name ≠ name := fun hn => h (hn ▸ name_mem he)
  simp [hne]

theorem erase_append (name : String) (as bs : Entries) : erase name (as ++ bs) = erase name as ++ erase name bs :=
  List.filter_append as bs

theorem erase_of_notMem {name : String} {es : Entries} (h : name ∉ names es) : erase name es = es := by
  refine List.filter_eq_self.mpr fun e he => ?_
  have hne : e.1.name ≠ name := fun hn => h (hn ▸ name_mem he)
  simpa using hne

theorem split {name : String} {n : Node} {es : Entries} (h : find? name es = some n) (hd : (names es).Nodup) :
    ∃ as k bs, es = as ++ (k, n) :: bs ∧ k.name = name ∧ (∀ n', replace name n' es = as ++ (k, n') :: bs) ∧
      erase name es = as ++ bs := by
  obtain ⟨e, he, rfl⟩ := Option.map_eq_some_iff.mp h
  obtain ⟨hn, as, bs, rfl, -⟩ := List.find?_eq_some_iff_append.mp he
  have hk : e.1.name = name := beq_iff_eq.mp hn
  rw [names_append, names_cons, hk, List.nodup_middle, List.nodup_cons, List.mem_append, not_or] at hd
  refine ⟨as, e.1, bs, rfl, hk, fun n' => ?_, ?_⟩
  · rw [replace_append, replace_cons_self hk, replace_of_notMem hd.1.1, replace_of_notMem hd.1.2]
  · have he : erase name (e :: bs) = erase name bs := List.filter_cons_of_neg (by simp [hk])
    rw [erase_append, he, erase_of_notMem hd.1.1, erase_of_notMem hd.1.2]

theorem distinct_append {k : Key} {es : Entries} (hd : (names es).Nodup) (hk : k.name ∉ names es) (n : Node) :
    (names (es ++ [(k, n)])).Nodup := by
  rw [names_append, List.nodup_append]
  refine ⟨hd, List.nodup_singleton _, fun a ha b hb => ?_⟩
  rintro rfl
  have hak : a = k.name := List.mem_singleton.mp hb
  exact hk (hak ▸ ha)

theorem distinct_exchange {k : Key} {n : Node} {as bs : Entries} (h : (names (as ++ (k, n) :: bs)).Nodup) (n' : Node) :
    (names (as ++ (k, n') :: bs)).Nodup := by
  rw [names_append] at h ⊢
  exact h

theorem forall_exchange {P : Key × Node → Prop} {e e' : Key × Node} {as bs : Entries} (h : ∀ a ∈ as ++ e :: bs, P a)
    (he : P e') : ∀ a ∈ as ++ e' :: bs, P a := by
  intro a ha
  rcases List.mem_append.mp ha with ha | ha
  · exact h a (List.mem_append_left _ ha)
  · rcases List.mem_cons.mp ha with rfl | ha
    · exact he
    · exact h a (List.mem_append_right as (List.mem_cons_of_mem e ha))

theorem forall_append_single {P : Key × Node → Prop} {e : Key × Node} {es : Entries} (h : ∀ a ∈ es, P a) (he : P e) :
    ∀ a ∈ es ++ [e], P a := by
  intro a ha
  rcases List.mem_append.mp ha with ha | ha
  · exact h a ha
  · rw [List.mem_singleton.mp ha]
    exact he

/-! ## The entries of some names -/

def only (chosen : String → Bool) (es : Entries) : Entries := es.filter fun e => chosen e.1.name

variable {chosen : String → Bool} {name : String}

theorem only_append (chosen : String → Bool) (as bs : Entries) :
    only chosen (as ++ bs) = only chosen as ++ only chosen bs :=
  List.filter_append as bs

theorem find?_only (h : chosen name = true) (es : Entries) : find? name (only chosen es) = find? name es := by
  unfold find? only
  rw [List.find?_filter]
  refine congrArg (Option.map _) (congrArg (List.find? · es) (funext fun e => ?_))
  by_cases hn : e.1.name = name
  · simp [hn, h]
  · simp [hn]

theorem only_replace (name : String) (n : Node) (es : Entries) :
    only chosen (replace name n es) = replace name n (only chosen es) := by
  unfold only replace
  rw [List.filter_map]
  refine congrArg (List.map _) (congrArg (List.filter · es) (funext fun e => ?_))
  simp only [Function.comp_apply]
  split <;> rfl

theorem notMem_only (h : chosen name = false) (es : Entries) : name ∉ names (only chosen es) := by
  intro hm
  obtain ⟨e, he, rfl⟩ := List.mem_map.mp hm
  exact absurd (List.mem_filter.mp he).2 (by rw [h]; exact Bool.false_ne_true)

theorem only_replace_of_not (h : chosen name = false) (n : Node) (es : Entries) :
    only chosen (replace name n es) = only chosen es := by
  rw [only_replace, replace_of_notMem (notMem_only h es)]

theorem only_erase (name : String) (es : Entries) : only chosen (erase name es) = erase name (only chosen es) := by
  unfold only erase
  rw [List.filter_filter, List.filter_filter]
  exact congrArg (List.filter · es) (funext fun e => Bool.and_comm _ _)

theorem only_erase_of_not (h : chosen name = false) (es : Entries) : only chosen (erase name es) = only chosen es := by
  rw [only_erase, erase_of_notMem (notMem_only h es)]

end Broadcast.Toml.Entries
