import Broadcast.Proofs.Files.Again
import Broadcast.Proofs.Text.Pieces

/-!
# The path beside a path

New content is written beside a file, under a name of its own in the same
directory. The path with that name leaves out the steps that stay in place, so
it leads to the same directory, and there the two names are different.
-/

namespace Broadcast

namespace Path

def IsStep (s : String) : Prop := s ≠ "" ∧ '/' ∉ s.toList

theorem isStep_of_mem_steps {path s : String} (h : s ∈ steps path) : IsStep s := by
  unfold steps at h
  obtain ⟨hm, hne⟩ := List.mem_filter.mp h
  obtain ⟨f, hf, rfl⟩ := List.mem_map.mp hm
  refine ⟨by simpa using hne, ?_⟩
  rw [String.toList_ofList]
  exact (of_mem_fields hf).1

theorem steps_of_isStep {s : String} (h : IsStep s) : steps s = [s] := by
  have hne : (s != "") = true := by simpa using h.1
  unfold steps
  rw [fields_of_not_mem h.2, List.map_singleton, String.ofList_toList]
  exact List.filter_cons_of_pos hne

theorem steps_slash (a b : String) : steps (a ++ "/" ++ b) = steps a ++ steps b := by
  have hl : (a ++ "/" ++ b).toList = a.toList ++ '/' :: b.toList := by
    rw [String.toList_append, String.toList_append, List.append_assoc]; rfl
  unfold steps
  rw [hl, fields_append_sep, List.map_append, List.filter_append]

theorem steps_intercalate (ps : List String) (h : ∀ p ∈ ps, IsStep p) : steps (String.intercalate "/" ps) = ps := by
  induction ps with
  | nil => rfl
  | cons p ps ih =>
    have hp := h p List.mem_cons_self
    have ih := ih fun q hq => h q (List.mem_cons_of_mem _ hq)
    cases ps with
    | nil => rw [String.intercalate_singleton, steps_of_isStep hp]
    | cons q ps => rw [String.intercalate_cons_cons, steps_slash, steps_of_isStep hp, ih]; rfl

theorem steps_ofParts (absolute : Bool) {ps : List String} (h : ∀ p ∈ ps, IsStep p) :
    steps (ofParts absolute ps) = ps := by
  unfold ofParts
  cases absolute with
  | false =>
    simp only [Bool.false_eq_true, ite_false, String.empty_append]
    exact steps_intercalate ps h
  | true =>
    have hs := steps_slash "" (String.intercalate "/" ps)
    rw [String.empty_append, steps_intercalate ps h] at hs
    exact hs

theorem isAbsolute_ofParts (absolute : Bool) {ps : List String} (h : ∀ p ∈ ps, IsStep p) :
    isAbsolute (ofParts absolute ps) = absolute := by
  unfold isAbsolute ofParts
  cases absolute with
  | true => rw [String.toList_append]; rfl
  | false =>
    simp only [Bool.false_eq_true, ite_false, String.empty_append, decide_eq_false_iff_not]
    intro hh
    cases ps with
    | nil => cases hh
    | cons p ps =>
      obtain ⟨hne, hs⟩ := h p List.mem_cons_self
      have hhead : (String.intercalate "/" (p :: ps)).toList.head? = p.toList.head? := by
        cases ps with
        | nil => rw [String.intercalate_singleton]
        | cons q ps =>
          rw [String.intercalate_cons_cons, String.append_assoc, String.toList_append]
          have hp : p.toList ≠ [] := fun he => hne (String.toList_injective he)
          rw [List.head?_append, List.head?_eq_some_head hp, Option.some_or]
      rw [hhead] at hh
      exact hs (List.mem_of_mem_head? hh)

/-! ## Steps that stay in place -/

/-- The second list is the first without some of the steps that stay in place. -/
inductive Shortens : List String → List String → Prop
  | nil : Shortens [] []
  | keep {ss ps : List String} (s : String) : Shortens ss ps → Shortens (s :: ss) (s :: ps)
  | skip {ss ps : List String} : Shortens ss ps → Shortens ("." :: ss) ps

theorem shortens_filter (ss : List String) : Shortens ss (ss.filter fun s => s != ".") := by
  induction ss with
  | nil => exact .nil
  | cons s ss ih =>
    by_cases hs : s = "."
    · subst hs; exact .skip ih
    · rw [List.filter_cons_of_pos (by simpa using hs)]
      exact .keep s ih

theorem shortens_parts (path : String) : Shortens (steps path) (parts path) := by
  unfold parts
  cases hs : steps path with
  | nil => exact .nil
  | cons s ss =>
    simp only
    split
    · rename_i hd
      have hdot : s = "." := by simp at hd; exact hd.1
      subst hdot
      exact .skip (shortens_filter ss)
    · exact .keep s (shortens_filter ss)

theorem Shortens.concat {ss qs : List String} {last : String} (h : Shortens (ss ++ [last]) qs) (hl : last ≠ ".") :
    ∃ ps, qs = ps ++ [last] ∧ Shortens ss ps := by
  induction ss generalizing qs with
  | nil =>
    cases h with
    | keep _ h => cases h; exact ⟨[], rfl, .nil⟩
    | skip _ => exact absurd rfl hl
  | cons s ss ih =>
    cases h with
    | keep _ h =>
      obtain ⟨ps, rfl, hp⟩ := ih h
      exact ⟨s :: ps, rfl, .keep s hp⟩
    | skip h =>
      obtain ⟨ps, rfl, hp⟩ := ih h
      exact ⟨ps, rfl, .skip hp⟩

theorem Shortens.subset {ss ps : List String} (h : Shortens ss ps) : ∀ p ∈ ps, p ∈ ss := by
  induction h with
  | nil => exact fun _ hp => hp
  | keep s _ ih =>
    intro p hp
    rcases List.mem_cons.mp hp with rfl | hp
    · exact List.mem_cons_self
    · exact List.mem_cons_of_mem _ (ih p hp)
  | skip _ ih => exact fun p hp => List.mem_cons_of_mem _ (ih p hp)

/-! ## The name beside a name -/

theorem stem?_eq_some {name stem : String} (h : stem? name = some stem) :
    ∃ extension, name = stem ++ "." ++ extension ∧ '.' ∉ extension.toList := by
  unfold stem? at h
  simp only at h
  split at h
  · cases h
  · rename_i hne
    cases h
    have hsplit := List.takeWhile_append_dropWhile (p := fun c => c != '.') (l := name.toList.reverse)
    cases hd : name.toList.reverse.dropWhile (fun c => c != '.') with
    | nil => rw [hd] at hne; exact absurd rfl hne
    | cons c rest =>
      have hc : c = '.' := by
        have := List.head?_dropWhile_not (fun c => c != '.') name.toList.reverse
        rw [hd] at this
        simpa using this
      rw [hd, hc] at hsplit
      refine ⟨String.ofList (name.toList.reverse.takeWhile fun c => c != '.').reverse, ?_, fun hm => ?_⟩
      · apply String.toList_injective
        have hrev := congrArg List.reverse hsplit
        rw [List.reverse_reverse, List.reverse_append, List.reverse_cons] at hrev
        simp only [String.toList_append, String.toList_ofList]
        exact hrev.symm
      · rw [String.toList_ofList, List.mem_reverse] at hm
        have hall := List.all_eq_true.mp (List.all_takeWhile (p := fun c => c != '.') (l := name.toList.reverse)) _ hm
        exact absurd hall (by decide)

theorem withExtension_cases (extension : String) {path last : String} (hl : (parts path).getLast? = some last)
    (h₁ : last ≠ ".") (h₂ : last ≠ "..") : ∃ other,
      withExtension extension path = ofParts (isAbsolute path) ((parts path).dropLast ++ [other]) ∧
      (other = ".." ∨ other = (stem? last).getD last ++ "." ++ extension) := by
  have hname : fileName? path = some last := by
    unfold fileName?
    rw [hl]
    exact Option.filter_eq_some_iff.mpr ⟨rfl, by simp [h₁, h₂]⟩
  unfold withExtension
  rw [hname]
  simp only
  split
  · exact ⟨_, rfl, .inl rfl⟩
  · exact ⟨_, rfl, .inr rfl⟩

theorem stem?_ne (name : String) : (stem? name).getD name ++ "." ++ "toml.tmp" ≠ name := by
  cases hs : stem? name with
  | none =>
    intro he
    have hlen := congrArg String.length he
    have h8 : "toml.tmp".length = 8 := rfl
    rw [Option.getD_none, String.length_append, String.length_append, h8] at hlen
    omega
  | some stem =>
    obtain ⟨extension, hn, hdot⟩ := stem?_eq_some hs
    intro he
    have hl := congrArg String.toList (he.trans hn)
    simp only [Option.getD_some, String.toList_append] at hl
    rw [← List.append_cancel_left hl] at hdot
    exact hdot (by decide)

theorem isStep_stem {name : String} (h : IsStep name) : IsStep ((stem? name).getD name ++ "." ++ "toml.tmp") := by
  refine ⟨fun he => ?_, fun hm => ?_⟩
  · have hl := congrArg String.toList he
    simp [String.toList_append] at hl
  · simp only [String.toList_append, List.mem_append] at hm
    rcases hm with (hm | hm) | hm
    · refine h.2 ?_
      cases hs : stem? name with
      | none => rwa [hs] at hm
      | some stem =>
        obtain ⟨extension, hn, -⟩ := stem?_eq_some hs
        rw [hs] at hm
        rw [hn, String.toList_append, String.toList_append]
        exact List.mem_append_left _ (List.mem_append_left _ hm)
    · exact absurd hm (by decide)
    · exact absurd hm (by decide)

theorem steps_temporary {path last : String} {ss : List String} (hs : steps path = ss ++ [last]) (h₁ : last ≠ ".")
    (h₂ : last ≠ "..") : ∃ ps other, Shortens ss ps ∧ steps (Files.temporary path) = ps ++ [other] ∧
      isAbsolute (Files.temporary path) = isAbsolute path ∧ other ≠ last := by
  obtain ⟨ps, hp, hsh⟩ := Shortens.concat (hs ▸ shortens_parts path) h₁
  have hl : (parts path).getLast? = some last := by rw [hp, List.getLast?_concat]
  have hstep : ∀ p ∈ parts path, IsStep p := fun p hm => isStep_of_mem_steps ((shortens_parts path).subset p hm)
  have hlast : IsStep last := hstep last (by rw [hp]; simp)
  obtain ⟨other, hw, ho⟩ := withExtension_cases "toml.tmp" hl h₁ h₂
  rw [hp, List.dropLast_concat] at hw
  have hother : IsStep other ∧ other ≠ last := by
    rcases ho with rfl | rfl
    · exact ⟨⟨by decide, by decide⟩, Ne.symm h₂⟩
    · exact ⟨isStep_stem hlast, stem?_ne last⟩
  have hall : ∀ p ∈ ps ++ [other], IsStep p := by
    intro p hm
    rcases List.mem_append.mp hm with hm | hm
    · exact hstep p (by rw [hp]; exact List.mem_append_left _ hm)
    · exact List.mem_singleton.mp hm ▸ hother.1
  refine ⟨ps, other, hsh, ?_, ?_, hother.2⟩
  · unfold Files.temporary
    rw [hw, steps_ofParts _ hall]
  · unfold Files.temporary
    rw [hw, isAbsolute_ofParts _ hall]

end Path

namespace Files

theorem enterAll_shortened {fs : Files} {ss ps : List String} (h : Path.Shortens ss ps) :
    ∀ {loc l : Location}, ss.foldlM fs.enter loc = .ok l → ps.foldlM fs.enter loc = .ok l := by
  induction h with
  | nil => intro loc l h; exact h
  | keep s _ ih =>
    intro loc l h
    rw [List.foldlM_cons] at h ⊢
    cases he : fs.enter loc s with
    | error e => rw [he] at h; cases h
    | ok m => rw [he] at h; exact ih h
  | skip _ ih =>
    intro loc l h
    rw [List.foldlM_cons] at h
    cases he : fs.enter loc "." with
    | error e => rw [he] at h; cases h
    | ok m =>
      rw [he] at h
      obtain ⟨p, hp, -, rfl⟩ := enter_eq_ok.mp he
      unfold step at hp
      rw [directory_of_step hp] at hp
      cases hp
      exact ih h

theorem step_named {fs : Files} {loc l : Location} {s : String} (h : fs.step loc s = .ok (.named l)) :
    l = loc ++ [s] ∧ s ≠ "." ∧ s ≠ ".." := by
  unfold step at h
  rw [directory_of_step h] at h
  simp only at h
  split at h
  · cases h
  · split at h
    · cases h
    · split at h
      · cases h
      · cases h; exact ⟨rfl, by assumption, by assumption⟩

theorem named_place_eq {fs : Files} {path : String} {loc : Location} (h : fs.place path = .ok (.named loc)) :
    ∃ ss last m, Path.steps path = ss ++ [last] ∧ last ≠ "." ∧ last ≠ ".." ∧
      ss.foldlM fs.enter (fs.start path) = .ok m ∧ loc = m ++ [last] := by
  obtain ⟨-, ⟨-, hn⟩ | ⟨last, hl, hw⟩⟩ := place_eq_ok.mp h
  · cases hn
  · obtain ⟨ss, hss⟩ := List.getLast?_eq_some_iff.mp hl
    rw [hss, List.dropLast_concat] at hw
    unfold walk at hw
    cases hf : ss.foldlM fs.enter (fs.start path) with
    | error e => rw [hf] at hw; cases hw
    | ok m =>
      rw [hf] at hw
      obtain ⟨hloc, h₁, h₂⟩ := step_named hw
      exact ⟨ss, last, m, hss, h₁, h₂, hf, hloc⟩

/-- **The temporary file is never the file itself.** -/
theorem temporary_ne {fs : Files} {path : String} {loc beside : Location} (h : fs.place path = .ok (.named loc))
    (hb : fs.place (temporary path) = .ok (.named beside)) : beside ≠ loc := by
  obtain ⟨ss, last, m, hss, h₁, h₂, hf, rfl⟩ := named_place_eq h
  obtain ⟨ps, other, hsh, hsteps, habs, hne⟩ := Path.steps_temporary hss h₁ h₂
  obtain ⟨ss', last', m', hss', -, -, hf', rfl⟩ := named_place_eq hb
  obtain ⟨rfl, hlast⟩ := List.append_inj' (hsteps.symm.trans hss') rfl
  obtain rfl := List.singleton_inj.mp hlast
  have hstart : fs.start (temporary path) = fs.start path := by unfold start; rw [habs]
  rw [hstart, enterAll_shortened hsh hf] at hf'
  cases hf'
  intro he
  exact hne (List.singleton_inj.mp (List.append_cancel_left he))

end Files

end Broadcast
