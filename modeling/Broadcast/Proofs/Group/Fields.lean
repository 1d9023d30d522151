import Broadcast.Proofs.Group.Settle
import Broadcast.Proofs.State.Runs

/-!
# The field of an edit

The field an edit is about holds a value, and that value as an edit would change
nothing. An edit leaves its normal form there, and reaches no field but its own
and those that belong to it.
-/

namespace Broadcast

/-! ## The value of a field, as an edit of it -/

def Group.current (g : Group) : GroupEdit → GroupEdit
  | .preset _ => .preset g.preset
  | .subgroupCount _ => .subgroupCount g.subgroupCount
  | .packing _ => .packing g.packing
  | .encryption _ => .encryption g.encrypted
  | .code _ => .code g.code

def Subgroup.current (s : Subgroup) : SubgroupEdit → SubgroupEdit
  | .context _ => .context s.context
  | .streams _ => .streams s.streams
  | .language _ => .language s.language

def Params.current (p : Params) : CustomEdit → CustomEdit
  | .sduInterval _ => .sduInterval p.sduInterval
  | .framing _ => .framing p.framing
  | .octetsPerSdu _ => .octetsPerSdu p.octetsPerSdu
  | .rtn _ => .rtn p.rtn
  | .maxTransportLatency _ => .maxTransportLatency p.maxTransportLatency
  | .presentationDelay _ => .presentationDelay p.presentationDelay

theorem Group.current_store (g : Group) (e : GroupEdit) : (g.store e).current e = e := by
  cases e with
  | subgroupCount n =>
    rw [store_subgroupCount]
    rfl
  | preset name => rfl
  | packing p => rfl
  | encryption on => rfl
  | code text => rfl

theorem Subgroup.current_store (s : Subgroup) (e : SubgroupEdit) : (s.store e).current e = e := by
  cases e <;> rfl

theorem Params.current_store (p : Params) (e : CustomEdit) : (p.store e).current e = e := by
  cases e <;> rfl

theorem Group.current_normal (g : Group) (e : GroupEdit) : g.current e.normal = g.current e := by
  cases e <;> rfl

theorem Subgroup.current_normal (s : Subgroup) (e : SubgroupEdit) : s.current e.normal = s.current e := by
  cases e <;> rfl

theorem Params.current_normal (p : Params) (e : CustomEdit) : p.current e.normal = p.current e := by
  cases e <;> rfl

/-! ## What stays -/

namespace Group

theorem isCustom_withPreset (g : Group) (name : String) : (g.withPreset name).isCustom = Preset.isCustom name := rfl

theorem custom_withPreset {g : Group} {name : String} (h : (g.isCustom || !Preset.isCustom name) = true) :
    (g.withPreset name).custom = g.custom := by
  have hn : ¬ (!g.isCustom && Preset.isCustom name) = true := by
    rcases hg : g.isCustom <;> rcases hp : Preset.isCustom name <;> simp_all
  exact if_neg hn

theorem custom_withPreset_of_enters {g : Group} {name : String} (hg : g.isCustom = false)
    (hn : Preset.isCustom name = true) : (g.withPreset name).custom = Preset.seed := by
  have h : (!g.isCustom && Preset.isCustom name) = true := by rw [hg, hn]; rfl
  exact if_pos h

end Group

/-- The groups differ at most in the field of an edit, and in what belongs to it. -/
def GroupEdit.Frames (g h : Group) : GroupEdit → Prop
  | .preset name => h = { g with preset := h.preset, custom := h.custom } ∧
      (g.preset ∈ Preset.catalogNames → name ∈ Preset.catalogNames → h.custom = g.custom) ∧
      (g.preset ∉ Preset.catalogNames → h.custom = g.custom)
  | .subgroupCount _ => h = { g with subgroupCount := h.subgroupCount, subgroups := h.subgroups }
  | .packing _ => h = { g with packing := h.packing }
  | .encryption _ => h = { g with encrypted := h.encrypted }
  | .code _ => h = { g with code := h.code }

def SubgroupEdit.Frames (s t : Subgroup) : SubgroupEdit → Prop
  | .context _ => t = { s with context := t.context }
  | .streams _ => t = { s with streams := t.streams }
  | .language _ => t = { s with language := t.language }

def CustomEdit.Frames (p q : Params) : CustomEdit → Prop
  | .sduInterval _ => q = { p with sduInterval := q.sduInterval }
  | .framing _ => q = { p with framing := q.framing }
  | .octetsPerSdu _ => q = { p with octetsPerSdu := q.octetsPerSdu }
  | .rtn _ => q = { p with rtn := q.rtn }
  | .maxTransportLatency _ => q = { p with maxTransportLatency := q.maxTransportLatency }
  | .presentationDelay _ => q = { p with presentationDelay := q.presentationDelay }

def Edit.Frames (g h : Group) : Edit → Prop
  | .group _ e => e.Frames g h
  | .subgroup _ i e => ∃ s t, g.subgroups[i]? = some s ∧ e.Frames s t ∧ h = { g with subgroups := g.subgroups.set i t }
  | .custom _ e => ∃ p, e.Frames g.custom p ∧ h = { g with custom := p }

theorem GroupEdit.frames_store (g : Group) (e : GroupEdit) : e.Frames g (g.store e.normal) := by
  cases e with
  | preset name =>
    refine ⟨rfl, fun _ hn => ?_, fun hg => ?_⟩
    · have hcatalog : Preset.isCustom name = false := by
        rw [← Bool.not_eq_true, Preset.isCustom_iff]
        exact not_not_intro hn
      exact Group.custom_withPreset (by simp [hcatalog])
    · have hcustom : g.isCustom = true := Preset.isCustom_iff.mpr hg
      exact Group.custom_withPreset (by simp [hcustom])
  | subgroupCount n =>
    simp only [GroupEdit.normal, Group.store_subgroupCount]
    rfl
  | packing p => rfl
  | encryption on => rfl
  | code text => rfl

theorem SubgroupEdit.frames_store (s : Subgroup) (e : SubgroupEdit) : e.Frames s (s.store e.normal) := by
  cases e <;> rfl

theorem CustomEdit.frames_store (p : Params) (e : CustomEdit) : e.Frames p (p.store e.normal) := by
  cases e <;> rfl

theorem Edit.frames_edit {g h : Group} {e : Edit} (he : g.edit e = .ok h) : e.Frames g h := by
  rcases Group.edit_cases he with ⟨id, e', rfl, rfl⟩ | ⟨id, i, e', s, rfl, hs, rfl⟩ | ⟨id, e', rfl, -, -, rfl⟩
  · exact e'.frames_store g
  · exact ⟨s, _, hs, e'.frames_store s, rfl⟩
  · exact ⟨_, e'.frames_store g.custom, rfl⟩

/-- A field and the others are all of the parameters. -/
theorem Params.eq_of_frames {e : CustomEdit} {p q r : Params} (hq : e.Frames p q) (hr : e.Frames p r)
    (h : q.current e = r.current e) : q = r := by
  cases e <;> (injection h with h; rw [hq, hr, h])

end Broadcast
