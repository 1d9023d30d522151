import Mathlib.Data.List.Forall2
import Broadcast.Proofs.Session.Controls
import Broadcast.Proofs.Session.States

/-!
# The views and the state agree

Whether a control is offered and whether its edits are accepted is decided in two
places. Both look at the same state: the parameters can be edited exactly in
custom mode, and there is a column for each subgroup there is. So what a control
offers is accepted, and the next view shows it where it was chosen.
-/

namespace Broadcast

open Widget

theorem toNat_toUInt8 {n : Nat} (h : n ≤ 255) : n.toUInt8.toNat = n :=
  UInt8.toNat_ofNat_of_lt' (Nat.lt_succ_of_le h)

theorem toNat_toUInt16 {n : Nat} (h : n ≤ 65535) : n.toUInt16.toNat = n :=
  UInt16.toNat_ofNat_of_lt' (Nat.lt_succ_of_le h)

theorem toNat_toUInt32 {n : Nat} (h : n ≤ 4294967295) : n.toUInt32.toNat = n :=
  UInt32.toNat_ofNat_of_lt' (Nat.lt_succ_of_le h)

/-! ## Normal forms of what is offered -/

theorem SubgroupEdit.normal_streams {n : Nat} (hl : 1 ≤ n) (hh : n ≤ 255) :
    (streams n.toUInt8).normal = streams n.toUInt8 := by
  have hle : streamsMin ≤ n.toUInt8 := UInt8.le_iff_toNat_le.mpr (by rw [toNat_toUInt8 hh]; exact hl)
  show streams (if streamsMin ≤ n.toUInt8 then n.toUInt8 else streamsMin) = _
  rw [if_pos hle]

theorem CustomEdit.normal_rtn {n : Nat} (h : n ≤ 10) : (rtn n.toUInt8).normal = rtn n.toUInt8 := by
  show rtn (if rtnMax ≤ n.toUInt8 then rtnMax else n.toUInt8) = _
  split
  · rename_i hle
    have hle : 10 ≤ n := by
      have := UInt8.le_iff_toNat_le.mp hle
      rwa [toNat_toUInt8 (by omega)] at this
    obtain rfl : n = 10 := by omega
    rfl
  · rfl

theorem CustomEdit.refusal?_of_mem {us : UInt32} (h : us ∈ sduIntervals) : (sduInterval us).refusal? = none :=
  if_pos (List.contains_iff_mem.mpr h)

/-! ## What a control shows and offers -/

/-- A choice that suits the state: the widget shows what the edit's field holds, and the edit is accepted
and brings the choice as it is, or cut. -/
structure State.Suits (s : State) (w : Widget) (x : Choice) (e : Edit) : Prop where
  shows : w.value? = (s.current? e).map Edit.value
  brings : e.normal.value = x.cut e
  accepted : ∃ g, (s.group e.target).edit e = .ok g

namespace Session

variable {s : Session} {w : Widget} {x : Choice} {e : Edit}

theorem suits_of_groupControl {id : GroupId} (h : s.GroupControl id w) (hs : w.Sends x e) : s.state.Suits w x e := by
  cases h with
  | preset =>
    obtain ⟨name, rfl, rfl⟩ := sends_names hs
    exact ⟨rfl, rfl, _, rfl⟩
  | count =>
    cases hs with
    | number hl hh => exact ⟨rfl, congrArg Choice.amount (toNat_toUInt8 hh), _, rfl⟩
  | packing =>
    cases hs with
    | pick hm =>
      obtain ⟨p, -, he⟩ := List.mem_map.mp hm
      cases he
      exact ⟨rfl, rfl, _, rfl⟩
  | encryption =>
    cases hs with
    | toggle => exact ⟨rfl, rfl, _, rfl⟩
  | code =>
    cases hs with
    | input => exact ⟨rfl, rfl, _, rfl⟩

theorem edit_of_inCustom {id : GroupId} (h : s.state.inCustom id = true) {e : CustomEdit} (he : e.refusal? = none) :
    ∃ g, (s.state.group id).edit (.custom id e) = .ok g := by
  have hc : (s.state.group id).isCustom = true := h
  simp only [Group.edit, hc, he]
  exact ⟨_, rfl⟩

theorem edit_of_subgroup {id : GroupId} {i : Nat} {g : Subgroup} (h : (s.state.group id).subgroups[i]? = some g)
    (e : SubgroupEdit) : ∃ g, (s.state.group id).edit (.subgroup id i e) = .ok g := by
  simp only [Group.edit, h]
  exact ⟨_, rfl⟩

theorem current?_of_subgroup {id : GroupId} {i : Nat} {g : Subgroup} (h : (s.state.group id).subgroups[i]? = some g)
    (e : SubgroupEdit) : s.state.current? (.subgroup id i e) = some (.subgroup id i (g.current e)) := by
  simp only [State.current?, h, Option.map_some]

theorem suits_of_paramControl {id : GroupId} (h : s.ParamControl id w) (hs : w.Sends x e) : s.state.Suits w x e := by
  cases h with
  | interval hc =>
    cases hs with
    | pick hm =>
      obtain ⟨us, hus, he⟩ := List.mem_map.mp hm
      cases he
      exact ⟨rfl, rfl, edit_of_inCustom hc (CustomEdit.refusal?_of_mem hus)⟩
  | framing hc =>
    cases hs with
    | pick hm =>
      obtain ⟨f, -, he⟩ := List.mem_map.mp hm
      cases he
      exact ⟨rfl, rfl, edit_of_inCustom hc rfl⟩
  | octets hc =>
    cases hs with
    | number hl hh => exact ⟨rfl, congrArg Choice.amount (toNat_toUInt16 hh), edit_of_inCustom hc rfl⟩
  | rtn hc =>
    cases hs with
    | number hl hh =>
      refine ⟨rfl, ?_, edit_of_inCustom hc rfl⟩
      have hh : _ ≤ 10 := hh
      simp only [Edit.normal, CustomEdit.normal_rtn hh, Edit.value, toNat_toUInt8 (Nat.le_trans hh (by decide))]
      rfl
  | latency hc =>
    cases hs with
    | number hl hh => exact ⟨rfl, congrArg Choice.amount (toNat_toUInt16 hh), edit_of_inCustom hc rfl⟩
  | delay hc =>
    cases hs with
    | number hl hh => exact ⟨rfl, congrArg Choice.amount (toNat_toUInt32 hh), edit_of_inCustom hc rfl⟩

theorem suits_of_subgroupControl {id : GroupId} (h : s.SubgroupControl id w) (hs : w.Sends x e) :
    s.state.Suits w x e := by
  cases h with
  | context hg =>
    obtain ⟨name, rfl, rfl⟩ := sends_names hs
    exact ⟨by rw [current?_of_subgroup hg]; rfl, rfl, edit_of_subgroup hg _⟩
  | streams hg =>
    cases hs with
    | number hl hh =>
      refine ⟨by rw [current?_of_subgroup hg]; rfl, ?_, edit_of_subgroup hg _⟩
      simp only [Edit.normal, SubgroupEdit.normal_streams hl hh, Edit.value, toNat_toUInt8 hh]
      rfl
  | language hg =>
    cases hs with
    | input => exact ⟨by rw [current?_of_subgroup hg]; rfl, rfl, edit_of_subgroup hg _⟩

theorem suits_of_mem_view (hw : w ∈ s.view) (hs : w.Sends x e) : s.state.Suits w x e := by
  cases shown_of_mem_view hw with
  | still h => exact absurd h hs.value?_ne_none
  | group h => exact suits_of_groupControl h hs
  | param _ h => exact suits_of_paramControl h hs
  | subgroup _ h => exact suits_of_subgroupControl h hs

theorem isDetail_of_mem_details {id : GroupId} (hw : w ∈ s.details id) (hs : w.Sends x e) : e.IsDetail id := by
  rcases control_of_mem_details hw with h | h | h
  · exact absurd h hs.value?_ne_none
  · exact .inl (sent_of_paramControl h hs)
  · exact .inr (sent_of_subgroupControl h hs)

/-! ## Views with the same controls -/

theorem alike_getElem? {l l' : List Widget} (h : List.Forall₂ Alike l l') {i : Nat} (hi : l[i]? = some w) :
    ∃ w', l'[i]? = some w' ∧ w.Alike w' := by
  induction h generalizing i with
  | nil => cases hi
  | cons ha _ ih =>
    cases i with
    | zero => cases hi; exact ⟨_, rfl, ha⟩
    | succ i => exact ih hi

theorem alike_append {front front' back back' : List Widget} (hf : List.Forall₂ Alike front front')
    (hb : w ∈ back → List.Forall₂ Alike back back') {i : Nat} (hi : (front ++ back)[i]? = some w) :
    ∃ w', (front' ++ back')[i]? = some w' ∧ w.Alike w' := by
  rcases Nat.lt_or_ge i front.length with h | h
  · rw [List.getElem?_append_left h] at hi
    rw [List.getElem?_append_left (hf.length_eq ▸ h)]
    exact alike_getElem? hf hi
  · rw [List.getElem?_append_right h] at hi
    exact alike_getElem? (List.rel_append hf (hb (List.mem_of_getElem? hi)))
      (by rw [List.getElem?_append_right h]; exact hi)

variable {r : Session}

theorem alike_summary (hv : r.state.vocabulary = s.state.vocabulary) (id : GroupId) :
    List.Forall₂ Alike (s.summary id) (r.summary id) := by
  unfold summary
  rw [hv]
  exact .cons (.text _ _) <| .cons (.text _ _) <| .cons (.pick _ _ _) <| .cons (.text _ _) <|
    .cons (.number _ _ _ _ _) <| .cons (.text _ _) <| .cons (.pick _ _ _) <| .cons (.text _ _) <|
    .cons (.toggle _ _ _) <| .cons (.text _ _) <| .cons (.input _ _ _) <| .cons (.text _ _) .nil

theorem alike_deviceRow : List.Forall₂ Alike s.deviceRow r.deviceRow :=
  .cons (.button _ _) <| .cons (.text _ _) <| .cons (.text _ _) <| .cons (.button _ _) .nil

theorem alike_presetRow (hv : r.state.vocabulary = s.state.vocabulary) (id : GroupId) :
    List.Forall₂ Alike (s.presetRow id) (r.presetRow id) := by
  unfold presetRow
  rw [hv]
  exact .cons (.text _ _) <| .cons (.pick _ _ _) .nil

theorem alike_paramRows {id : GroupId} (hm : r.state.inCustom id = s.state.inCustom id) :
    List.Forall₂ Alike (s.paramRows id) (r.paramRows id) := by
  unfold paramRows
  simp only [custom_view, hm]
  split
  · exact .cons (.text _ _) <| .cons (.pick _ _ _) <| .cons (.text _ _) <| .cons (.pick _ _ _) <|
      .cons (.text _ _) <| .cons (.number _ _ _ _ _) <| .cons (.text _ _) <| .cons (.text _ _) <|
      .cons (.text _ _) <| .cons (.number _ _ _ _ _) <| .cons (.text _ _) <| .cons (.number _ _ _ _ _) <|
      .cons (.text _ _) <| .cons (.number _ _ _ _ _) .nil
  · exact .cons (.text _ _) <| .cons (.text _ _) <| .cons (.text _ _) <| .cons (.text _ _) <|
      .cons (.text _ _) <| .cons (.text _ _) <| .cons (.text _ _) <| .cons (.text _ _) <|
      .cons (.text _ _) <| .cons (.text _ _) <| .cons (.text _ _) <| .cons (.text _ _) <|
      .cons (.text _ _) <| .cons (.text _ _) .nil

theorem alike_column (contexts : List String) (id : GroupId) (i : Nat) (g h : Subgroup) :
    List.Forall₂ Alike (subgroupColumn contexts id i g) (subgroupColumn contexts id i h) :=
  .cons (.text _ _) <| .cons (.text _ _) <| .cons (.pick _ _ _) <| .cons (.text _ _) <|
    .cons (.number _ _ _ _ _) <| .cons (.text _ _) <| .cons (.input _ _ _) .nil

theorem alike_columns (contexts : List String) (id : GroupId) : ∀ (i : Nat) {gs hs : List Subgroup},
    hs.length = gs.length →
      List.Forall₂ Alike (subgroupColumns contexts id i gs) (subgroupColumns contexts id i hs)
  | _, [], [], _ => .nil
  | i, g :: _, h :: _, hl =>
    List.rel_append (alike_column contexts id i g h) (alike_columns contexts id (i + 1) (Nat.succ.inj hl))

theorem alike_details {id : GroupId} (hv : r.state.vocabulary = s.state.vocabulary)
    (hm : r.state.inCustom id = s.state.inCustom id)
    (hl : (r.state.group id).subgroups.length = (s.state.group id).subgroups.length) :
    List.Forall₂ Alike (s.details id) (r.details id) := by
  refine List.rel_append (alike_paramRows hm) (.cons (.text _ _) ?_)
  have he : (r.state.group id).subgroups.isEmpty = (s.state.group id).subgroups.isEmpty := by
    rw [Bool.eq_iff_iff, List.isEmpty_iff_length_eq_zero, List.isEmpty_iff_length_eq_zero, hl]
  rw [he, hv]
  split
  · exact .cons (.text _ _) .nil
  · exact alike_columns _ id 0 hl

/-! ## After an edit -/

theorem tab_edit (s : Session) (e : Edit) : (s.edit e).tab = s.tab := by
  unfold edit
  cases s.state.apply e with
  | error err => rfl
  | ok c => simp only; split <;> rfl

theorem state_edit_of_ok {c : Change} (h : s.state.apply e = .ok c) : (s.edit e).state = c.state := by
  rw [state_edit]
  simp only [State.act, h]

theorem notes_edit_of_ok {c : Change} (h : s.state.apply e = .ok c) :
    ∃ added, (s.edit e).notes = s.notes ++ added ∧ ∀ n ∈ added, n.level? = some .info := by
  refine ⟨_, notes_edit_of_apply h, fun n hn => ?_⟩
  obtain ⟨text, -, rfl⟩ := Option.map_eq_some_iff.mp (Option.mem_toList.mp hn)
  rfl

theorem alike_view_edit {i : Nat} (hi : s.view[i]? = some w) (hs : w.Sends x e) {c : Change}
    (hc : s.state.apply e = .ok c) : ∃ w', (s.edit e).view[i]? = some w' ∧ w.Alike w' := by
  obtain ⟨g, he, -, hg, hv⟩ := State.apply_cases hc
  have hstate := state_edit_of_ok hc
  have hv : (s.edit e).state.vocabulary = s.state.vocabulary := by rw [hstate, hv]
  unfold view at hi ⊢
  rw [tab_edit]
  cases ht : s.tab with
  | overview =>
    rw [ht] at hi
    have hfront : List.Forall₂ Alike (GroupId.all.flatMap s.summary ++ s.deviceRow)
        (GroupId.all.flatMap (s.edit e).summary ++ (s.edit e).deviceRow) :=
      List.rel_append (List.rel_append (alike_summary hv .first) (List.rel_append (alike_summary hv .second) .nil))
        alike_deviceRow
    refine alike_append hfront (fun hw => ?_) hi
    -- the log sends nothing
    rcases List.mem_cons.mp hw with rfl | hw
    · cases hs
    · obtain ⟨n, -, rfl⟩ := List.mem_map.mp hw
      cases hs
  | group id =>
    rw [ht] at hi
    simp only [groupTab_eq] at hi ⊢
    refine alike_append (alike_presetRow hv id) (fun hw => ?_) hi
    have hd := isDetail_of_mem_details hw hs
    have htarget : e.target = id := by rcases hd with ⟨_, rfl⟩ | ⟨_, _, rfl⟩ <;> rfl
    subst htarget
    obtain ⟨hcustom, hlength⟩ := Group.shape_of_detail hd he
    refine alike_details hv ?_ ?_
    · rw [hstate, State.inCustom, hg]
      exact hcustom
    · rw [hstate, hg]
      exact hlength

/-- What comes of a choice at a place of the view: the edit is accepted without a warning, the field holds
what was chosen, cut if it was too long, and the same control shows it in the next view. -/
structure Agrees [Wording] (s : Session) (i : Nat) (w : Widget) (x : Choice) (e : Edit) : Prop where
  accepted : ∃ c, s.state.apply e = .ok c ∧ (s.update (.edit e)).state = c.state ∧
    c.outcome.stored.value = x.cut e ∧ (s.update (.edit e)).state.current? e = some c.outcome.stored
  notes : ∃ added, (s.update (.edit e)).notes = s.notes ++ added ∧ ∀ n ∈ added, n.level? ≠ some .warn
  shown : ∃ w', (s.update (.edit e)).view[i]? = some w' ∧ w.Alike w' ∧ w'.value? = some (x.cut e)

theorem agrees_of_sends [Wording] {i : Nat} (hi : s.view[i]? = some w) (hs : w.Sends x e) : s.Agrees i w x e := by
  have hsuits := suits_of_mem_view (List.mem_of_getElem? hi) hs
  obtain ⟨g, hg⟩ := hsuits.accepted
  obtain ⟨c, hc⟩ : ∃ c, s.state.apply e = .ok c := ⟨_, State.apply_of_ok hg⟩
  obtain ⟨-, -, ho, -⟩ := State.apply_cases hc
  have hstate : (s.update (.edit e)).state = c.state := state_edit_of_ok hc
  have hstored : c.outcome.stored.value = x.cut e := by rw [ho]; exact hsuits.brings
  have hcurrent : (s.update (.edit e)).state.current? e = some c.outcome.stored := by
    rw [hstate]
    exact State.current?_apply hc
  refine ⟨⟨c, hc, hstate, hstored, hcurrent⟩, ?_, ?_⟩
  · obtain ⟨added, hn, hl⟩ := notes_edit_of_ok hc
    exact ⟨added, hn, fun n hm => by rw [hl n hm]; decide⟩
  · obtain ⟨w', hi', ha⟩ := alike_view_edit hi hs hc
    have hshows := (suits_of_mem_view (List.mem_of_getElem? hi') (ha.sends hs)).shows
    refine ⟨w', hi', ha, ?_⟩
    have hcurrent : (s.edit e).state.current? e = some c.outcome.stored := hcurrent
    rw [hshows, hcurrent, Option.map_some, hstored]

/-! ## What is shown -/

theorem range_of_mem_view [Wording] (h : s.IsReached) {value low high : Nat} {edit : Nat → Edit}
    (hw : number value low high edit ∈ s.view) : low ≤ value ∧ value ≤ high := by
  have hshown := shown_of_mem_view hw
  generalize hw : number value low high edit = w at hshown
  cases hshown with
  | still hn => subst hw; cases hn
  | @group id hc =>
    cases hc with
    | count => cases hw; exact ⟨Nat.zero_le _, Nat.le_of_lt_succ (UInt8.toNat_lt _)⟩
    | preset => cases hw
    | packing => cases hw
    | encryption => cases hw
    | code => cases hw
  | @param id _ hc =>
    cases hc with
    | octets _ => cases hw; exact ⟨Nat.zero_le _, Nat.le_of_lt_succ (UInt16.toNat_lt _)⟩
    | rtn _ => cases hw; exact ⟨Nat.zero_le _, UInt8.le_iff_toNat_le.mp (h.wellFormed id).rtn⟩
    | latency _ => cases hw; exact ⟨Nat.zero_le _, Nat.le_of_lt_succ (UInt16.toNat_lt _)⟩
    | delay _ => cases hw; exact ⟨Nat.zero_le _, Nat.le_of_lt_succ (UInt32.toNat_lt _)⟩
    | interval _ => cases hw
    | framing _ => cases hw
  | @subgroup id _ hc =>
    cases hc with
    | streams hg =>
      cases hw
      have hstreams := ((h.wellFormed id).subgroups _ (List.mem_of_getElem? hg)).streams
      exact ⟨UInt8.le_iff_toNat_le.mp hstreams, Nat.le_of_lt_succ (UInt8.toNat_lt _)⟩
    | context _ => cases hw
    | language _ => cases hw

theorem interval_of_mem_view [Wording] (h : s.IsReached) {options : List (String × Edit)} {selected label : String}
    {id : GroupId} {us : UInt32} (hw : pick options selected ∈ s.view)
    (ho : (label, .custom id (.sduInterval us)) ∈ options) :
    s.tab = .group id ∧ s.state.inCustom id = true ∧
      options = [("7500", .custom id (.sduInterval 7500)), ("10000", .custom id (.sduInterval 10000))] ∧
      (selected = "7500" ∨ selected = "10000") := by
  have hs : (pick options selected).Sends (.option label) (.custom id (.sduInterval us)) := .pick ho
  cases shown_of_mem_view hw with
  | still hn => cases hn
  | group hc =>
    obtain ⟨_, he⟩ := sent_of_groupControl hc hs
    cases he
  | subgroup _ hc =>
    obtain ⟨_, _, he⟩ := sent_of_subgroupControl hc hs
    cases he
  | param ht hc =>
    obtain ⟨_, he⟩ := sent_of_paramControl hc hs
    cases he
    generalize hw : pick options selected = w at hc
    cases hc with
    | interval hm =>
      cases hw
      refine ⟨ht, hm, rfl, ?_⟩
      rcases (h.wellFormed id).offered ((State.inCustom_iff _ id).mp hm) with hi | hi
      · exact .inl (by rw [hi]; rfl)
      · exact .inr (by rw [hi]; rfl)
    | framing _ =>
      cases hw
      obtain ⟨_, -, he⟩ := List.mem_map.mp ho
      cases he
    | octets _ => cases hw
    | rtn _ => cases hw
    | latency _ => cases hw
    | delay _ => cases hw

theorem interval_mem_view {id : GroupId} (ht : s.tab = .group id) (hm : s.state.inCustom id = true) :
    ∃ selected, pick [("7500", .custom id (.sduInterval 7500)), ("10000", .custom id (.sduInterval 10000))] selected ∈
      s.view := by
  refine ⟨Nat.repr (s.state.group id).custom.sduInterval.toNat, ?_⟩
  unfold view
  simp only [ht, groupTab_eq, details, paramRows, custom_view, hm, ite_true]
  exact List.mem_append_right _ (List.mem_append_left _ (.tail _ (.head _)))

/-- The tab of a group ends with these columns, one for each of as many subgroups as the count says, and no
other widget of it edits a subgroup. -/
structure ShowsColumns (s : Session) (id : GroupId) (columns : List (List Widget)) : Prop where
  view : ∃ rows, s.view = rows ++ text "Subgroups" ::
      (if columns.isEmpty then [text "No subgroups"] else columns.flatten) ∧
    ∀ w ∈ rows, ∀ x i e, ¬ w.Sends x (.subgroup id i e)
  length : columns.length = (s.state.group id).subgroups.length ∧
    columns.length = (s.state.group id).subgroupCount.toNat
  column : ∀ i column, columns[i]? = some column → ∃ g, (s.state.group id).subgroups[i]? = some g ∧
    column = subgroupColumn s.state.vocabulary.contexts id i g

theorem showsColumns [Wording] (h : s.IsReached) {id : GroupId} (ht : s.tab = .group id) :
    s.ShowsColumns id ((s.state.group id).subgroups.mapIdx (subgroupColumn s.state.vocabulary.contexts id)) where
  view := by
    refine ⟨s.presetRow id ++ s.paramRows id, ?_, fun w hw x i e hs => ?_⟩
    · have he : ((s.state.group id).subgroups.mapIdx (subgroupColumn s.state.vocabulary.contexts id)).isEmpty =
          (s.state.group id).subgroups.isEmpty := by
        rw [Bool.eq_iff_iff, List.isEmpty_iff_length_eq_zero, List.isEmpty_iff_length_eq_zero, List.length_mapIdx]
      unfold Session.view
      simp only [ht, groupTab_eq, details, subgroupColumns_eq, he, List.append_assoc, Nat.zero_add]
    · rcases List.mem_append.mp hw with hw | hw
      · rcases control_of_mem_presetRow hw with hn | hc
        · exact hs.value?_ne_none hn
        · obtain ⟨_, he⟩ := sent_of_groupControl hc hs
          cases he
      · rcases control_of_mem_paramRows hw with hn | hc
        · exact hs.value?_ne_none hn
        · obtain ⟨_, he⟩ := sent_of_paramControl hc hs
          cases he
  length := by
    rw [List.length_mapIdx]
    exact ⟨rfl, (h.wellFormed id).count⟩
  column i column hi := by
    rw [List.getElem?_mapIdx] at hi
    obtain ⟨g, hg, rfl⟩ := Option.map_eq_some_iff.mp hi
    exact ⟨g, hg, rfl⟩

/-- **The views and the state agree.** Whatever a widget of the view can send is accepted and stored as it is,
or cut, and the next view shows it there. Every number that is shown is in the range of its input, the list of
intervals is there in custom mode only and shows one of the two that it offers, and there is exactly one column
for each subgroup. -/
theorem view_agrees [Wording] (h : s.IsReached) :
    (∀ i w x e, s.view[i]? = some w → w.Sends x e → s.Agrees i w x e) ∧
    (∀ value low high edit, number value low high edit ∈ s.view → low ≤ value ∧ value ≤ high) ∧
    (∀ options selected label id us, pick options selected ∈ s.view →
      (label, .custom id (.sduInterval us)) ∈ options →
        s.tab = .group id ∧ s.state.inCustom id = true ∧
          options = [("7500", .custom id (.sduInterval 7500)), ("10000", .custom id (.sduInterval 10000))] ∧
          (selected = "7500" ∨ selected = "10000")) ∧
    (∀ id, s.tab = .group id → s.state.inCustom id = true → ∃ selected,
      pick [("7500", .custom id (.sduInterval 7500)), ("10000", .custom id (.sduInterval 10000))] selected ∈ s.view) ∧
    ∀ id, s.tab = .group id → ∃ columns, s.ShowsColumns id columns :=
  ⟨fun _ _ _ _ hi hs => agrees_of_sends hi hs, fun _ _ _ _ hw => range_of_mem_view h hw,
    fun _ _ _ _ _ hw ho => interval_of_mem_view h hw ho, fun _ ht hm => interval_mem_view ht hm,
    fun _ ht => ⟨_, showsColumns h ht⟩⟩

section

attribute [local instance] Wording.plain

/-- In custom mode, the language of the second subgroup is typed in and cut. -/
theorem view_agrees_language :
    ∃ (s : Session) (w : Widget) (e : Edit), s.IsReached ∧ s.state.inCustom .second = true ∧
      s.view[30]? = some w ∧ w.Sends (.words "german") e ∧
      ∃ w', (s.update (.edit e)).view[30]? = some w' ∧ w'.value? = some (.words "ger") := by
  let s : Session := (opened ⟨"bct.toml", {}⟩ .empty (.fresh .builtIn) none "").run
    [.edit (.group .second (.preset customName)), .edit (.group .second (.subgroupCount 2)), .showTab (.group .second)]
  have hr : s.IsReached := isReached_run _ _ _ _ _ _
  have hw : s.view[30]? = some (input "-" fun text => .subgroup .second 1 (.language text)) := rfl
  have hs : (input "-" fun text => .subgroup .second 1 (.language text)).Sends (.words "german") _ := .input
  obtain ⟨w', hw', -, hv⟩ := ((view_agrees hr).1 30 _ _ _ hw hs).shown
  exact ⟨s, _, _, hr, by decide +kernel, hw, hs, w', hw', hv⟩

end

end Session

end Broadcast
