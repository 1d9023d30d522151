import Broadcast.Proofs.Toml.Chapters

/-!
# Sections again

Reading all sections of a document gives one chapter for each, in their order, and
reading only those under some of the top-level keys, in their order, with the lines
of their tables as they are printed, gives the same tables under these keys.
-/

namespace Broadcast.Toml

open Entries

/-- No line of the section leads into a table that headers before it have made. -/
def Headed.isApart (s : Headed) (es : Entries) : Bool :=
  s.pairs.all fun p => !contains p.path.first.name (implied s.path.leaf s.path.parents es)

def areApart (place : Nat) (es : Entries) : List Headed → Bool
  | [] => true
  | s :: ss =>
    s.isApart es &&
      match addHeaded s place s.path.parents es with
      | some es => areApart (place + 1) es ss
      | none => true

def Headed.settled (s : Headed) : Headed := { s with pairs := ownLines ((addPairs [] s.pairs).getD []) }

def numbered (place : Nat) : List Headed → List (Nat × Headed)
  | [] => []
  | s :: ss => (place, s.settled) :: numbered (place + 1) ss

structure Headed.Fits (line : Key → Node → Prop) (inner title : Key → Prop) (s : Headed) : Prop where
  pairs : ∀ p ∈ s.pairs, p.Fits line inner
  title : title s.path.leaf
  parents : ∀ k ∈ s.path.parents, inner k

variable {line : Key → Node → Prop} {inner title : Key → Prop} {s : Headed} {place : Nat} {es es' : Entries}
  {ss : List Headed}

theorem Headed.notMem_of_isApart (h : s.isApart es = true) :
    ∀ p ∈ s.pairs, p.path.first.name ∉ names (implied s.path.leaf s.path.parents es) := by
  intro p hp
  rw [isApart, List.all_eq_true] at h
  have hc := h p hp
  rw [Bool.not_eq_true', contains_eq_false_iff] at hc
  exact hc

theorem addAllHeaded_cons (h : addAllHeaded place es (s :: ss) = some es') :
    ∃ es₁, addHeaded s place s.path.parents es = some es₁ ∧ addAllHeaded (place + 1) es₁ ss = some es' :=
  Option.bind_eq_some_iff.mp h

theorem areApart_cons {es₁ : Entries} (h : areApart place es (s :: ss) = true)
    (hs : addHeaded s place s.path.parents es = some es₁) :
    s.isApart es = true ∧ areApart (place + 1) es₁ ss = true := by
  rw [areApart, hs, Bool.and_eq_true] at h
  exact h

theorem Forest.step (hes : Forest line inner title es) (hs : s.Fits line inner title) (hapart : s.isApart es = true)
    (h : addHeaded s place s.path.parents es = some es') :
    ∃ own, addPairs [] s.pairs = some own ∧ Own line inner own ∧ Forest line inner title es' ∧
      ownLines es' = ownLines es ∧
      ((chapters es').map named).Perm ((chapters es).map named ++ [named (place, s.settled)]) := by
  obtain ⟨own, hown, ho⟩ :=
    opened_of_addHeaded hes (fun p hp => (hs.pairs p hp).value) (Headed.notMem_of_isApart hapart) h
  have hlines := (own_of_addPairs hs.pairs .nil hown).1
  have hsettled : s.settled = ⟨s.array, s.path, s.margin, ownLines own⟩ := by
    unfold Headed.settled
    rw [hown]
    rfl
  rw [hsettled]
  exact ⟨own, hown, hlines, hes.opened hlines hs.title hs.parents ho, ho.ownLines_eq, ho.perm hlines.chapters_eq_nil⟩

/-- **A document has the chapters it was read from.** -/
theorem forest_of_addAllHeaded (hes : Forest line inner title es) (hss : ∀ s ∈ ss, s.Fits line inner title)
    (hapart : areApart place es ss = true) (h : addAllHeaded place es ss = some es') :
    Forest line inner title es' ∧ ownLines es' = ownLines es ∧
      ((chapters es').map named).Perm ((chapters es).map named ++ (numbered place ss).map named) := by
  induction ss generalizing place es with
  | nil =>
    cases h
    exact ⟨hes, rfl, by rw [numbered, List.map_nil, List.append_nil]⟩
  | cons s ss ih =>
    obtain ⟨es₁, h₁, h⟩ := addAllHeaded_cons h
    obtain ⟨hs, hapart⟩ := areApart_cons hapart h₁
    obtain ⟨own, -, -, hes₁, hl₁, hperm₁⟩ := hes.step (hss s List.mem_cons_self) hs h₁
    obtain ⟨hf, hl, hperm⟩ := ih hes₁ (fun s hs => hss s (List.mem_cons_of_mem _ hs)) hapart h
    refine ⟨hf, hl.trans hl₁, hperm.trans ((hperm₁.append_right _).trans ?_)⟩
    rw [List.append_assoc]
    exact .rfl

/-! ## Reading some sections again -/

theorem addHeaded_settled {own : Entries} (hs : ∀ p ∈ s.pairs, p.value.isValue = true) (hapart : s.isApart es = true)
    (hown : addPairs [] s.pairs = some own) (hlines : Own line inner own) (place : Nat) :
    addHeaded s.settled place s.path.parents es = addHeaded s place s.path.parents es := by
  have hfirst := Headed.notMem_of_isApart hapart
  have hfirst' : ∀ p ∈ ownLines own, p.path.first.name ∉ names (implied s.path.leaf s.path.parents es) := by
    intro p hp
    obtain ⟨e, he, hpe⟩ := mem_ownLines.mp hp
    obtain ⟨q, hq, hqe⟩ := name_of_addPairs hs hown e.1.name (name_mem he)
    rw [first_of_mem_ownLines hpe, ← hqe]
    exact hfirst q hq
  have hbuilt : addPairs [] (ownLines own) = addPairs [] s.pairs := (addPairs_ownLines hlines).trans hown.symm
  unfold Headed.settled
  rw [hown]
  -- beside what headers have made, both build the section's own table
  refine addHeaded_congr place hbuilt ?_
  have h₁ := addPairs_beside hfirst' []
  have h₂ := addPairs_beside hfirst []
  rw [List.append_nil] at h₁ h₂
  exact h₁.trans (hbuilt ▸ h₂.symm)

theorem first_of_settled {s₂ : Headed} (h : s₂.core = s.settled.core) : s₂.path.first.name = s.path.first.name := by
  have hpath : s₂.path.core = s.path.core := congrArg Headed.path h
  have hname := congrArg (fun p : KeyPath => p.first.name) hpath
  simp only [KeyPath.first_core] at hname
  exact hname

theorem addHeaded_again {chosen : String → Bool} {s₂ : Headed} {es₂ : Entries} (hs : s.Fits line inner title)
    (hes : Forest line inner title es) (hapart : s.isApart es = true)
    (h : addHeaded s place s.path.parents es = some es')
    (hc : chosen s.path.first.name = true) (hs₂ : s₂.core = s.settled.core)
    (hes₂ : entryCores (only chosen es₂) = entryCores (only chosen es)) (place₂ : Nat) :
    ∃ es₂', addHeaded s₂ place₂ s₂.path.parents es₂ = some es₂' ∧
      entryCores (only chosen es₂') = entryCores (only chosen es') := by
  obtain ⟨own, hown, hlines, -⟩ := hes.step hs hapart h
  have hpath : s₂.path.core = s.path.core := congrArg Headed.path hs₂
  have hparents : s₂.path.parents.map Key.core = s.path.parents.map Key.core := congrArg KeyPath.parents hpath
  have hcores : (addHeaded s₂ place₂ s₂.path.parents (only chosen es₂)).map entryCores =
      some (entryCores (only chosen es')) := by
    rw [← addHeaded_core s₂ place₂ 0, hs₂, hparents, hes₂, addHeaded_core s.settled place 0]
    have honly : addHeaded s.settled place s.path.parents (only chosen es) =
        addHeaded s place s.path.parents (only chosen es) := by
      refine addHeaded_settled (fun p hp => (hs.pairs p hp).value) ?_ hown hlines place
      rw [Headed.isApart, implied_only hc]
      exact hapart
    rw [honly, addHeaded_only hc, h]
    rfl
  rw [addHeaded_only (first_of_settled hs₂ ▸ hc), Option.map_map] at hcores
  obtain ⟨es₂', h₂, he⟩ := Option.map_eq_some_iff.mp hcores
  exact ⟨es₂', h₂, he⟩

/-- **Reading some sections again** gives the tables under their top-level keys again, also
when they are written in another way and other tables are there. -/
theorem replay {chosen : String → Bool} (hss : ∀ s ∈ ss, s.Fits line inner title) (hes : Forest line inner title es)
    (hapart : areApart place es ss = true) (h : addAllHeaded place es ss = some es') {ss₂ : List Headed} {es₂ : Entries}
    (hss₂ : ss₂.map Headed.core = (ss.filter fun s => chosen s.path.first.name).map (fun s => s.settled.core))
    (hes₂ : entryCores (only chosen es₂) = entryCores (only chosen es)) (place₂ : Nat) :
    ∃ es₂', addAllHeaded place₂ es₂ ss₂ = some es₂' ∧ entryCores (only chosen es₂') = entryCores (only chosen es') ∧
      only (fun name => !chosen name) es₂' = only (fun name => !chosen name) es₂ := by
  induction ss generalizing place es ss₂ es₂ place₂ with
  | nil =>
    cases h
    rw [List.filter_nil, List.map_nil, List.map_eq_nil_iff] at hss₂
    rw [hss₂]
    exact ⟨es₂, rfl, hes₂, rfl⟩
  | cons s ss ih =>
    obtain ⟨es₁, h₁, h⟩ := addAllHeaded_cons h
    obtain ⟨hs, hapart⟩ := areApart_cons hapart h₁
    have hfits := hss s List.mem_cons_self
    obtain ⟨-, -, -, hes₁, -⟩ := hes.step hfits hs h₁
    have hss := fun s hs => hss s (List.mem_cons_of_mem _ hs)
    cases hc : chosen s.path.first.name with
    | true =>
      rw [List.filter_cons_of_pos (by exact hc), List.map_cons] at hss₂
      obtain ⟨s₂, rest, rfl, hs₂, hrest⟩ := List.map_eq_cons_iff.mp hss₂
      obtain ⟨es₂₁, h₂, he⟩ := addHeaded_again hfits hes hs h₁ hc hs₂ hes₂ place₂
      obtain ⟨es₂', h₂', he', hothers⟩ := ih hss hes₁ hapart h hrest he (place₂ + 1)
      refine ⟨es₂', Option.bind_eq_some_iff.mpr ⟨es₂₁, h₂, h₂'⟩, he', hothers.trans (addHeaded_only_of_not ?_ h₂)⟩
      rw [first_of_settled hs₂, hc]
      rfl
    | false =>
      rw [List.filter_cons_of_neg (by rw [hc]; exact Bool.false_ne_true)] at hss₂
      exact ih hss hes₁ hapart h hss₂ (hes₂.trans (congrArg entryCores (addHeaded_only_of_not hc h₁).symm)) place₂

end Broadcast.Toml
