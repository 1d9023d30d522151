import Mathlib.Data.List.Induction
import Broadcast.Proofs.Group.Fields

/-!
# Custom mode

A group is in custom mode while its preset is no name of the catalog. The mode
changes only with an edit of the preset, so the last such edit divides a run:
from there on the parameters are the seed with the accepted edits, or they stay
as they were.
-/

namespace Broadcast

namespace Edit

def customOf? (id : GroupId) : Edit → Option CustomEdit
  | custom other e => if other = id then some e else none
  | _ => none

end Edit

/-! ## Parameters that are edited -/

namespace Params

/-- Edits are made of parameters, in their order: each leaves its normal form in its own field, and the other
fields stay. -/
inductive Updated : List CustomEdit → Params → Params → Prop
  | nil (p : Params) : Updated [] p p
  | cons {e : CustomEdit} {es : List CustomEdit} {p q r : Params} : e.Frames p q → q.current e = e.normal →
      Updated es q r → Updated (e :: es) p r

theorem Updated.append {es fs : List CustomEdit} {p q r : Params} (h : Updated es p q) (k : Updated fs q r) :
    Updated (es ++ fs) p r := by
  induction h with
  | nil p => exact k
  | cons hf hc _ ih => exact .cons hf hc (ih k)

theorem Updated.unique {es : List CustomEdit} {p q r : Params} (h : Updated es p q) (k : Updated es p r) : q = r := by
  induction h with
  | nil p => cases k; rfl
  | cons hf hc _ ih =>
    cases k with
    | cons hf' hc' k' =>
      obtain rfl := eq_of_frames hf hf' (hc.trans hc'.symm)
      exact ih k'

theorem updated_store (p : Params) (e : CustomEdit) : Updated [e] p (p.store e.normal) := by
  refine .cons (e.frames_store p) ?_ (.nil _)
  rw [← current_normal, current_store]

end Params

theorem Preset.find?_name : ∀ p ∈ catalog, find? p.name = some p := by
  decide +kernel

/-! ## One edit -/

namespace Group

theorem edit_mode {g h : Group} {e : Edit} (he : g.edit e = .ok h) :
    (∃ id name, e = .group id (.preset name) ∧ h = g.withPreset name) ∨
    (∃ id e', e = .custom id e' ∧ g.isCustom = true ∧ h = { g with custom := g.custom.store e'.normal }) ∨
    ((∀ id, e.customOf? id = none) ∧ h.preset = g.preset ∧ h.custom = g.custom) := by
  rcases edit_cases he with ⟨id, e', rfl, rfl⟩ | ⟨id, i, e', s, rfl, -, rfl⟩ | ⟨id, e', rfl, hc, -, rfl⟩
  · cases e' with
    | preset name => exact .inl ⟨id, name, rfl, rfl⟩
    | subgroupCount n =>
      have hs : g.store (GroupEdit.subgroupCount n).normal = _ := g.store_subgroupCount n
      rw [hs]
      exact .inr (.inr ⟨fun _ => rfl, rfl, rfl⟩)
    | packing p => exact .inr (.inr ⟨fun _ => rfl, rfl, rfl⟩)
    | encryption on => exact .inr (.inr ⟨fun _ => rfl, rfl, rfl⟩)
    | code text => exact .inr (.inr ⟨fun _ => rfl, rfl, rfl⟩)
  · exact .inr (.inr ⟨fun _ => rfl, rfl, rfl⟩)
  · exact .inr (.inl ⟨id, e', rfl, hc, rfl⟩)

end Group

/-! ## Runs that stay in one mode -/

namespace State

def inCustom (s : State) (id : GroupId) : Bool := (s.group id).isCustom

theorem inCustom_iff (s : State) (id : GroupId) :
    s.inCustom id = true ↔ (s.group id).preset ∉ Preset.catalogNames :=
  Preset.isCustom_iff

theorem inCustom_eq_false_iff (s : State) (id : GroupId) :
    s.inCustom id = false ↔ (s.group id).preset ∈ Preset.catalogNames := by
  rw [← Bool.not_eq_true, inCustom_iff]
  exact Decidable.not_not

/-- The edits of a run that are accepted, each by the state it meets. -/
def accepted (s : State) : List Action → List Edit
  | [] => []
  | .names v :: as => (s.act (.names v)).accepted as
  | .edit e :: as =>
    match s.apply e with
    | .ok _ => e :: (s.act (.edit e)).accepted as
    | .error _ => (s.act (.edit e)).accepted as

def acceptedCustom (s : State) (id : GroupId) (as : List Action) : List CustomEdit :=
  (s.accepted as).filterMap (Edit.customOf? id)

theorem act_mode (s : State) (a : Action) (id : GroupId) :
    (∃ name, a = .edit (.group id (.preset name)) ∧ s.acceptedCustom id [a] = [] ∧
      (s.act a).group id = (s.group id).withPreset name) ∨
    (∃ e, a = .edit (.custom id e) ∧ s.acceptedCustom id [a] = [e] ∧ s.inCustom id = true ∧
      (s.act a).group id = { s.group id with custom := (s.group id).custom.store e.normal }) ∨
    (s.acceptedCustom id [a] = [] ∧ ((s.act a).group id).preset = (s.group id).preset ∧
      ((s.act a).group id).custom = (s.group id).custom) := by
  cases a with
  | names v => exact .inr (.inr ⟨rfl, rfl, rfl⟩)
  | edit e =>
    cases he : (s.group e.target).edit e with
    | error err =>
      have ha : s.acceptedCustom id [.edit e] = [] := by
        unfold acceptedCustom accepted
        rw [apply_of_error he]
        rfl
      have hs : s.act (.edit e) = s := by simp only [act, apply_of_error he]
      rw [hs]
      exact .inr (.inr ⟨ha, rfl, rfl⟩)
    | ok g =>
      have ha : s.acceptedCustom id [.edit e] = [e].filterMap (Edit.customOf? id) := by
        unfold acceptedCustom accepted
        rw [apply_of_ok he]
        rfl
      have hg := s.group_act_edit e id
      rw [ha]
      by_cases ht : e.target = id
      · subst ht
        rw [if_pos rfl, Group.edited_of_ok he] at hg
        rw [hg]
        rcases Group.edit_mode he with ⟨i, name, rfl, rfl⟩ | ⟨i, e', rfl, hc, rfl⟩ | ⟨hn, hp, hcu⟩
        · exact .inl ⟨name, rfl, rfl, rfl⟩
        · exact .inr (.inl ⟨e', rfl, by simp [Edit.customOf?, Edit.target], hc, rfl⟩)
        · exact .inr (.inr ⟨by simp [hn], hp, hcu⟩)
      · rw [if_neg ht] at hg
        have hn : e.customOf? id = none := by
          cases e with
          | custom other e' => exact if_neg ht
          | group _ _ => rfl
          | subgroup _ _ _ => rfl
        exact .inr (.inr ⟨by simp [hn], congrArg Group.preset hg, congrArg Group.custom hg⟩)

theorem group_act_preset (s : State) (id : GroupId) (name : String) :
    (s.act (.edit (.group id (.preset name)))).group id = (s.group id).withPreset name :=
  (s.group_act_edit _ id).trans (if_pos rfl)

theorem accepted_cons (s : State) (a : Action) (as : List Action) :
    s.accepted (a :: as) = s.accepted [a] ++ (s.act a).accepted as := by
  cases a with
  | names v => rfl
  | edit e => simp only [accepted]; split <;> rfl

theorem acceptedCustom_cons (s : State) (id : GroupId) (a : Action) (as : List Action) :
    s.acceptedCustom id (a :: as) = s.acceptedCustom id [a] ++ (s.act a).acceptedCustom id as := by
  unfold acceptedCustom
  rw [accepted_cons, List.filterMap_append]

/-- The group is in one mode before the run and after each action of it. -/
def Stays (s : State) (id : GroupId) (mode : Bool) (as : List Action) : Prop :=
  ∀ mid, mid <+: as → (s.run mid).inCustom id = mode

theorem Stays.here {s : State} {id : GroupId} {mode : Bool} {as : List Action} (h : s.Stays id mode as) :
    s.inCustom id = mode :=
  h [] List.nil_prefix

theorem Stays.tail {s : State} {id : GroupId} {mode : Bool} {a : Action} {as : List Action}
    (h : s.Stays id mode (a :: as)) : (s.act a).Stays id mode as :=
  fun mid hm => h (a :: mid) (List.cons_prefix_cons.mpr ⟨rfl, hm⟩)

theorem Stays.updated (as : List Action) {id : GroupId} : ∀ {s : State}, s.Stays id true as →
    Params.Updated (s.acceptedCustom id as) (s.group id).custom ((s.run as).group id).custom := by
  induction as with
  | nil => exact fun _ => .nil _
  | cons a as ih =>
    intro s h
    have hstep : Params.Updated (s.acceptedCustom id [a]) (s.group id).custom ((s.act a).group id).custom := by
      rcases s.act_mode a id with ⟨name, -, hn, hg⟩ | ⟨e, -, hn, -, hg⟩ | ⟨hn, -, hg⟩
      · have hc : (s.group id).isCustom = true := h.here
        rw [hn, hg, Group.custom_withPreset (by rw [hc]; rfl)]
        exact .nil _
      · rw [hn, hg]
        exact Params.updated_store _ e
      · rw [hn, hg]
        exact .nil _
    rw [run_cons, acceptedCustom_cons s id a as]
    exact hstep.append (ih h.tail)

theorem Stays.custom_eq (as : List Action) {id : GroupId} : ∀ {s : State}, s.Stays id false as →
    ((s.run as).group id).custom = (s.group id).custom := by
  induction as with
  | nil => intro s _; rfl
  | cons a as ih =>
    intro s h
    have hstep : ((s.act a).group id).custom = (s.group id).custom := by
      rcases s.act_mode a id with ⟨name, -, -, hg⟩ | ⟨e, -, -, hc, -⟩ | ⟨-, -, hg⟩
      · have hn : Preset.isCustom name = false := by
          have := h.tail.here
          rwa [inCustom, hg, Group.isCustom_withPreset] at this
        rw [hg]
        exact Group.custom_withPreset (by rw [hn]; exact Bool.or_true _)
      · rw [h.here] at hc; cases hc
      · exact hg
    rw [run_cons, ih h.tail, hstep]

/-! ## The last change of the mode -/

/-- The edit of the preset, after `pre`, that gave the group the mode it has at the end of the run. -/
structure LastSwitch (s : State) (id : GroupId) (as pre : List Action) (name : String) (post : List Action) :
    Prop where
  split : as = pre ++ .edit (.group id (.preset name)) :: post
  before : (s.run pre).inCustom id = !(s.run as).inCustom id
  mode : Preset.isCustom name = (s.run as).inCustom id
  after : ((s.run pre).act (.edit (.group id (.preset name)))).Stays id ((s.run as).inCustom id) post

theorem Stays.concat {s : State} {id : GroupId} {mode : Bool} {as : List Action} {a : Action}
    (h : s.Stays id mode as) (ha : (s.run (as ++ [a])).inCustom id = mode) : s.Stays id mode (as ++ [a]) := by
  intro mid hm
  rcases List.prefix_concat_iff.mp hm with rfl | hm
  · exact ha
  · exact h mid hm

/-- A run stays in the mode it ends in, or there is an edit after which it does. -/
theorem stays_or_lastSwitch (s : State) (id : GroupId) (as : List Action) :
    s.Stays id ((s.run as).inCustom id) as ∨ ∃ pre name post, s.LastSwitch id as pre name post := by
  induction as using List.reverseRecOn with
  | nil =>
    left
    intro mid hm
    rw [List.prefix_nil.mp hm]
  | append_singleton as a ih =>
    have hrun : s.run (as ++ [a]) = (s.run as).act a := s.run_append as [a]
    by_cases hmode : (s.run (as ++ [a])).inCustom id = (s.run as).inCustom id
    · rw [hmode]
      refine ih.imp (fun h => h.concat hmode) ?_
      rintro ⟨pre, name, post, h⟩
      refine ⟨pre, name, post ++ [a], ?_, ?_, ?_, ?_⟩
      · rw [h.split]; simp
      · rw [hmode]; exact h.before
      · rw [hmode]; exact h.mode
      · rw [hmode]
        refine h.after.concat ?_
        have hsame : (s.run pre).act (.edit (.group id (.preset name))) =
            s.run (pre ++ [.edit (.group id (.preset name))]) := by rw [run_append, run_cons, run_nil]
        rw [hsame, ← run_append]
        simpa [h.split] using hmode
    · -- only an edit of the preset changes the mode
      right
      rcases (s.run as).act_mode a id with ⟨name, rfl, -, hg⟩ | ⟨e, -, -, -, hg⟩ | ⟨-, hg, -⟩
      · refine ⟨as, name, [], rfl, ?_, ?_, ?_⟩
        · rw [Bool.eq_not]; exact fun he => hmode he.symm
        · rw [hrun, inCustom, hg, Group.isCustom_withPreset]
        · intro mid hm
          rw [List.prefix_nil.mp hm, hrun, run_nil]
      · refine absurd ?_ hmode
        rw [hrun, inCustom, hg]; rfl
      · refine absurd ?_ hmode
        rw [hrun, inCustom, inCustom, Group.isCustom, Group.isCustom, hg]

theorem inCustom_fresh (v : Vocabulary) (id : GroupId) : (fresh v).inCustom id = false := by
  cases id <;> exact Preset.isCustom_notSet

theorem view_of_inCustom {s : State} {id : GroupId} (h : s.inCustom id = true) :
    s.view id = ⟨(s.group id).preset, true, (s.group id).custom⟩ := by
  have hn : Preset.find? (s.group id).preset = none := Option.isNone_iff_eq_none.mp h
  unfold view PresetView.of
  rw [hn]

/-- **The history of a group's own parameters.** In custom mode they are those of the last catalog
entry with the edits accepted since the mode was entered; with a preset of the catalog they stay
as they were when the mode was left, and the entry's parameters are shown. -/
theorem custom_history (v : Vocabulary) (as : List Action) (id : GroupId) :
    ((((fresh v).run as).group id).preset ∉ Preset.catalogNames →
      ∃ pre name post last, (fresh v).LastSwitch id as pre name post ∧ Preset.catalog.getLast? = some last ∧
        (∀ p, Params.Updated (((fresh v).run (pre ++ [.edit (.group id (.preset name))])).acceptedCustom id post)
          last.params p ↔ p = (((fresh v).run as).group id).custom) ∧
        ((fresh v).run as).view id =
          ⟨(((fresh v).run as).group id).preset, true, (((fresh v).run as).group id).custom⟩) ∧
    ((((fresh v).run as).group id).preset ∈ Preset.catalogNames →
      (∀ p ∈ Preset.catalog, p.name = (((fresh v).run as).group id).preset →
        ((fresh v).run as).view id = ⟨p.name, false, p.params⟩) ∧
      ((fresh v).Stays id false as ∧ (((fresh v).run as).group id).custom = {} ∨
        ∃ pre name post, (fresh v).LastSwitch id as pre name post ∧
          (((fresh v).run as).group id).custom = (((fresh v).run pre).group id).custom)) := by
  have hcut := (fresh v).stays_or_lastSwitch id as
  constructor
  · intro hp
    have hc : ((fresh v).run as).inCustom id = true := (inCustom_iff _ id).mpr hp
    rw [hc] at hcut
    rcases hcut with h | ⟨pre, name, post, h⟩
    · have := h.here
      rw [inCustom_fresh] at this; cases this
    · obtain ⟨last, hlast⟩ : ∃ last, Preset.catalog.getLast? = some last := ⟨_, rfl⟩
      refine ⟨pre, name, post, last, h, hlast, ?_, view_of_inCustom hc⟩
      have hseed : Preset.seed = last.params := by unfold Preset.seed; rw [hlast]; rfl
      have hbefore : ((fresh v).run pre).inCustom id = false := by rw [h.before, hc]; rfl
      have hname : Preset.isCustom name = true := h.mode.trans hc
      have hg : (((fresh v).run (pre ++ [.edit (.group id (.preset name))])).group id) =
          (((fresh v).run pre).group id).withPreset name := by
        rw [run_append, run_cons, run_nil, group_act_preset]
      have hafter := h.after
      rw [hc, ← run_nil (act _ _), ← run_cons, ← run_append] at hafter
      have hend : (fresh v).run as =
          ((fresh v).run (pre ++ [.edit (.group id (.preset name))])).run post := by
        rw [← run_append, h.split]; simp
      have hupdated := hafter.updated
      rw [hg, Group.custom_withPreset_of_enters hbefore hname, hseed, ← hend] at hupdated
      exact fun p => ⟨fun h => h.unique hupdated, fun h => h ▸ hupdated⟩
  · intro hp
    have hc : ((fresh v).run as).inCustom id = false := (inCustom_eq_false_iff _ id).mpr hp
    rw [hc] at hcut
    refine ⟨fun p hm hn => ?_, hcut.imp (fun h => ⟨h, ?_⟩) ?_⟩
    · have hf := Preset.find?_name p hm
      rw [hn] at hf ⊢
      unfold view PresetView.of
      rw [hf]
    · rw [h.custom_eq]
      cases id <;> rfl
    · rintro ⟨pre, name, post, h⟩
      refine ⟨pre, name, post, h, ?_⟩
      have hname : Preset.isCustom name = false := h.mode.trans hc
      have hafter := h.after
      rw [hc] at hafter
      have hend : (fresh v).run as = (((fresh v).run pre).act (.edit (.group id (.preset name)))).run post := by
        rw [h.split, run_append, run_cons]
      rw [hend, hafter.custom_eq, group_act_preset]
      exact Group.custom_withPreset (by rw [hname]; exact Bool.or_true _)

end State

end Broadcast
