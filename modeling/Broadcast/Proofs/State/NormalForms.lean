import Broadcast.Proofs.State.Independence
import Broadcast.Proofs.State.Stored
import Broadcast.Proofs.State.WellFormed

/-!
# Normal forms

An edit does what its normal form does, and that is what it leaves in its field.
Made a second time it finds the preset, the count and the value as it wants them,
so it changes nothing but the generation of a tab that is built anew.
-/

namespace Broadcast

theorem truncated_truncated (max : Nat) (s : String) : truncated max (truncated max s) = truncated max s := by
  unfold truncated
  rw [String.toList_ofList, List.take_take, Nat.min_self]

/-! ## An edit and its normal form -/

theorem GroupEdit.normal_normal (e : GroupEdit) : e.normal.normal = e.normal := by
  cases e with
  | code text => exact congrArg code (truncated_truncated codeMax text)
  | preset name => rfl
  | subgroupCount n => rfl
  | packing p => rfl
  | encryption on => rfl

theorem SubgroupEdit.normal_normal (e : SubgroupEdit) : e.normal.normal = e.normal := by
  cases e with
  | streams n =>
    have hmax : max streamsMin (max streamsMin n) = max streamsMin n := if_pos (streamsMin_le_max n)
    exact congrArg streams hmax
  | language text => exact congrArg language (truncated_truncated languageMax text)
  | context name => rfl

theorem CustomEdit.normal_normal (e : CustomEdit) : e.normal.normal = e.normal := by
  cases e with
  | rtn n =>
    have hmin : min rtnMax (min rtnMax n) = min rtnMax n := by
      rcases Std.min_eq_or (a := rtnMax) (b := n) with h | h
      · rw [h, Std.min_self]
      · rw [h, h]
    exact congrArg rtn hmin
  | sduInterval us => rfl
  | framing f => rfl
  | octetsPerSdu n => rfl
  | maxTransportLatency ms => rfl
  | presentationDelay us => rfl

theorem CustomEdit.refusal?_normal (e : CustomEdit) : e.normal.refusal? = e.refusal? := by
  cases e <;> rfl

namespace Edit

theorem normal_normal (e : Edit) : e.normal.normal = e.normal := by
  cases e with
  | group id e => exact congrArg (group id) e.normal_normal
  | subgroup id i e => exact congrArg (subgroup id i) e.normal_normal
  | custom id e => exact congrArg (custom id) e.normal_normal

theorem target_normal (e : Edit) : e.normal.target = e.target := by
  cases e <;> rfl

theorem rebuild?_normal (e : Edit) : e.normal.rebuild? = e.rebuild? := by
  cases e with
  | group id e => cases e <;> rfl
  | subgroup id i e => rfl
  | custom id e => rfl

end Edit

theorem Group.edit_normal (g : Group) (e : Edit) : g.edit e.normal = g.edit e := by
  cases e with
  | group id e => simp only [edit, Edit.normal, e.normal_normal]
  | subgroup id i e => simp only [edit, Edit.normal, e.normal_normal]
  | custom id e => simp only [edit, Edit.normal, e.normal_normal, e.refusal?_normal]

namespace State

theorem reports_normal (s : State) (e : Edit) : s.reports e.normal = s.reports e := by
  cases e with
  | group id e => cases e <;> rfl
  | subgroup id i e => rfl
  | custom id e => rfl

theorem apply_normal (s : State) (e : Edit) : s.apply e.normal = s.apply e := by
  unfold apply
  rw [e.target_normal, Group.edit_normal, e.rebuild?_normal, e.normal_normal, s.reports_normal]

end State

/-! ## The same edit again -/

theorem resized_resized (n : Nat) (l : List Subgroup) : resized n (resized n l) = resized n l := by
  have h := resized_length (resized n l)
  rwa [length_resized] at h

theorem Subgroup.store_store (s : Subgroup) (e : SubgroupEdit) : (s.store e).store e = s.store e := by
  cases e <;> rfl

theorem Params.store_store (p : Params) (e : CustomEdit) : (p.store e).store e = p.store e := by
  cases e <;> rfl

namespace Group

theorem withPreset_withPreset (g : Group) (name : String) :
    (g.withPreset name).withPreset name = g.withPreset name := by
  have hstays : ((g.withPreset name).isCustom || !Preset.isCustom name) = true := by
    rw [isCustom_withPreset]
    exact Bool.or_not_self _
  have hcustom := custom_withPreset hstays
  calc (g.withPreset name).withPreset name
      = { g with preset := name, custom := ((g.withPreset name).withPreset name).custom } := rfl
    _ = { g with preset := name, custom := (g.withPreset name).custom } := by rw [hcustom]
    _ = g.withPreset name := rfl

theorem store_store (g : Group) (e : GroupEdit) : (g.store e).store e = g.store e := by
  cases e with
  | preset name => exact g.withPreset_withPreset name
  | subgroupCount n =>
    simp only [store_subgroupCount, resized_resized]
  | packing p => rfl
  | encryption on => rfl
  | code text => rfl

theorem edit_again {g h : Group} {e : Edit} (he : g.edit e = .ok h) : h.edit e = .ok h := by
  rcases edit_cases he with ⟨id, e', rfl, rfl⟩ | ⟨id, i, e', t, rfl, ht, rfl⟩ | ⟨id, e', rfl, hc, hr, rfl⟩
  · exact congrArg Except.ok (g.store_store e'.normal)
  · have hi : i < g.subgroups.length := (List.getElem?_eq_some_iff.mp ht).1
    have hset : (g.subgroups.set i (t.store e'.normal))[i]? = some (t.store e'.normal) := List.getElem?_set_self hi
    simp only [edit, hset, List.set_set, t.store_store]
  · have hmode : isCustom { g with custom := g.custom.store e'.normal } = true := hc
    simp only [edit, hmode, hr, Params.store_store]
    rfl

end Group

namespace State

theorem reports_of_preset {s : State} {id : GroupId} {name : String} (h : (s.group id).preset = name) :
    s.reports (.group id (.preset name)) = [] := by
  have hn : ¬ (s.group id).entersCustom (.preset name) = true := by
    show ¬ (!Preset.isCustom (s.group id).preset && Preset.isCustom name) = true
    rw [h, Bool.not_and_self]
    exact Bool.false_ne_true
  exact if_neg hn

theorem reports_of_current {s : State} {e : Edit} (h : s.current? e = some e) : s.reports e = [] := by
  cases e with
  | group id e =>
    cases e with
    | preset name =>
      cases h
      exact reports_of_preset rfl
    | _ => rfl
  | subgroup id i e => rfl
  | custom id e => rfl

theorem set_group (s : State) (id : GroupId) : ({ s with groups := s.groups.set id (s.group id) } : State) = s := by
  have hg : s.groups.set id (s.group id) = s.groups := by
    refine PerGroup.ext_get fun other => ?_
    by_cases h : other = id
    · rw [h, PerGroup.get_set_self]
      rfl
    · exact PerGroup.get_set_of_ne _ h _
  rw [hg]

theorem apply_again {s : State} {e : Edit} {c : Change} (h : s.apply e = .ok c) :
    c.state.apply e = .ok ⟨e.rebuild?.elim c.state c.state.bump, c.outcome, c.state.reports e⟩ := by
  obtain ⟨g, hg, ho, hc, -⟩ := apply_cases h
  have hagain : (c.state.group e.target).edit e = .ok (c.state.group e.target) := by
    rw [hc]
    exact Group.edit_again hg
  rw [apply_of_ok hagain, set_group, ho]

/-- **What is stored is a normal form.** The field of an accepted edit holds the value of the outcome. To apply this
value instead of the edit gives the same, and to apply it once more is accepted with the same outcome and nothing to
report, and leaves everything but the generation of a tab that is built anew. -/
theorem stored_normal {s : State} {e : Edit} {c : Change} (h : s.apply e = .ok c) :
    c.state.current? e = some c.outcome.stored ∧
    s.apply c.outcome.stored = .ok c ∧
    ∃ d, c.state.apply c.outcome.stored = .ok d ∧ d.outcome = c.outcome ∧ d.log = [] ∧
      d.state = c.outcome.rebuild.elim c.state c.state.bump := by
  have hcurrent := current?_apply h
  obtain ⟨-, -, ho, -, -⟩ := apply_cases h
  have hnormal : s.apply e.normal = .ok c := (s.apply_normal e).trans h
  have hstored : c.outcome.stored = e.normal := by rw [ho]
  have hrebuild : c.outcome.rebuild = e.normal.rebuild? := by rw [ho, e.rebuild?_normal]
  have hquiet : c.state.reports e.normal = [] := by
    refine reports_of_current ?_
    rw [current?_apply hnormal, hstored]
  rw [hstored, hrebuild]
  exact ⟨hstored ▸ hcurrent, hnormal, _, apply_again hnormal, rfl, hquiet, rfl⟩

/-- A preset with which a group enters custom mode does so only once, and a language that is too long is cut
only once. -/
theorem stored_normal_seeded_and_cut :
    (∃ c d, (fresh .builtIn).apply (.group .second (.preset "mine")) = .ok c ∧ c.log ≠ [] ∧
      c.state.apply (.group .second (.preset "mine")) = .ok d ∧ d.log = [] ∧ d.state = c.state.bump .second) ∧
    ∃ s c, s = (fresh .builtIn).run [.edit (.group .second (.subgroupCount 3))] ∧
      s.apply (.subgroup .second 2 (.language "english")) = .ok c ∧
      s.apply (.subgroup .second 2 (.language "eng")) = .ok c := by
  constructor
  · have h : (fresh .builtIn).apply (.group .second (.preset "mine")) = .ok _ := rfl
    obtain ⟨-, -, d, hd, -, hl, hs⟩ := stored_normal h
    exact ⟨_, d, h, by decide, hd, hl, hs⟩
  · have h : ((fresh .builtIn).run [.edit (.group .second (.subgroupCount 3))]).apply
        (.subgroup .second 2 (.language "english")) = .ok _ := rfl
    obtain ⟨-, hagain, -⟩ := stored_normal h
    exact ⟨_, _, rfl, h, hagain⟩

end State

end Broadcast
