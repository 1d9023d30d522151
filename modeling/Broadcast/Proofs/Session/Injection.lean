import Broadcast.Proofs.Device.Reliable
import Broadcast.Proofs.Session.States
import Broadcast.Proofs.State.Independence
import Broadcast.Proofs.Text.Pieces

/-!
# No header can inject commands

A name in a header is part of one line of it, whatever the line looks like, so
no name that is offered has a line feed in it. A preset that was chosen stays
when other names are offered; it was offered once, and that is enough. So the
lines on the wire are those of the orders that were sent.
-/

namespace Broadcast

def IsLine (s : String) : Prop := '\n' ∉ s.toList

namespace Category

theorem isLine_of_nameIn? {c : Category} {line : List Char} {name : String} (hl : '\n' ∉ line)
    (h : c.nameIn? line = some name) : IsLine name := by
  unfold nameIn? at h
  split at h
  · obtain ⟨part, hpart, rfl⟩ := Option.map_eq_some_iff.mp h
    obtain ⟨third, hthird, hq⟩ := Option.bind_eq_some_iff.mp hpart
    unfold IsLine
    rw [String.toList_ofList]
    exact fun hm => hl (mem_of_mem_field? hthird _ (mem_of_mem_field? hq _ hm))
  · cases h

theorem nameIn?_of_findingIn? {c : Category} {number : Nat} {line : List Char} {name : String}
    (h : c.findingIn? number line = some (.name name)) : c.nameIn? line = some name := by
  unfold findingIn? at h
  split at h
  · rename_i s hs
    cases h
    exact hs
  · split at h <;> cases h

theorem isLine_of_mem_findings {c : Category} {name : String} : ∀ {ls : List (List Char)} {number : Nat},
    (∀ line ∈ ls, '\n' ∉ line) → .name name ∈ c.findings number ls → IsLine name
  | [], _, _, h => by cases h
  | line :: rest, number, hl, h => by
    rcases List.mem_append.mp h with h | h
    · exact isLine_of_nameIn? (hl line List.mem_cons_self) (nameIn?_of_findingIn? (Option.mem_toList.mp h))
    · exact isLine_of_mem_findings (fun l hm => hl l (List.mem_cons_of_mem _ hm)) h

theorem isLine_of_mem_names {c : Category} {text name : String} (h : name ∈ c.names text) : IsLine name := by
  obtain ⟨finding, hf, hn⟩ := List.mem_filterMap.mp h
  cases finding with
  | malformed line => cases hn
  | name s =>
    cases hn
    exact isLine_of_mem_findings (fun _ => newline_notMem_of_mem_lines) hf

end Category

namespace Vocabulary

/-- Names as they are offered: those of a header, or the built-in ones. -/
def IsOffer (v : Vocabulary) : Prop := v = builtIn ∨ ∃ text, v = ofText text

theorem isLine_of_mem_builtIn : ∀ name ∈ builtIn.presets, IsLine name := by
  unfold IsLine
  decide +kernel

theorem isLine_of_mem_presets {v : Vocabulary} (h : v.IsOffer) {name : String} (hm : name ∈ v.presets) :
    IsLine name := by
  rcases h with rfl | ⟨text, rfl⟩
  · exact isLine_of_mem_builtIn name hm
  · have hfixed : ∀ s ∈ [notSet, customName], IsLine s := by
      unfold IsLine
      decide
    rcases List.mem_append.mp (show name ∈ [notSet, customName] ++ Category.preset.names text from hm) with hm | hm
    · exact hfixed name hm
    · exact Category.isLine_of_mem_names hm

end Vocabulary

namespace Session

/-! ## Presets that were offered -/

/-- A message that chooses a preset chooses one that is offered. -/
def ChoosesOffered (s : Session) (m : Message) : Prop :=
  ∀ id name, m = .edit (.group id (.preset name)) → name ∈ s.state.vocabulary.presets

def AlwaysChoosesOffered [Wording] (s : Session) : List (Files × Message) → Prop
  | [] => True
  | (fs, m) :: es => s.ChoosesOffered m ∧ ({ s with files := fs }.update m).AlwaysChoosesOffered es

/-- The names are those of some header or the built-in ones, and every preset is on one line. -/
structure IsTame (s : Session) : Prop where
  offer : s.state.vocabulary.IsOffer
  presets : ∀ id, IsLine (s.state.group id).preset

theorem vocabulary_update [Wording] (s : Session) (m : Message) :
    (s.update m).state.vocabulary = ((s.act? m).bind Action.vocabulary?).getD s.state.vocabulary := by
  rw [state_update]
  cases s.act? m with
  | none => rfl
  | some a => exact State.vocabulary_act s.state a

theorem isOffer_of_act? {s : Session} {m : Message} {v : Vocabulary} (h : s.act? m = some (.names v)) : v.IsOffer := by
  rcases act?_cases h with ⟨_, -, he⟩ | ⟨path, w, -, hl, he⟩
  · cases he
  · cases he
    obtain ⟨text, -, rfl⟩ := Vocabulary.eq_ofText_of_load hl
    exact .inr ⟨text, rfl⟩

theorem preset_group_update [Wording] (s : Session) (m : Message) (id : GroupId) :
    ((s.update m).state.group id).preset = (s.state.group id).preset ∨
      ∃ name, m = .edit (.group id (.preset name)) ∧ ((s.update m).state.group id).preset = name := by
  rw [state_update]
  cases ha : s.act? m with
  | none => exact .inl rfl
  | some a =>
    rcases s.state.act_mode a id with ⟨name, rfl, -, hg⟩ | ⟨e, -, -, -, hg⟩ | ⟨-, hp, -⟩
    · rcases act?_cases ha with ⟨_, rfl, he⟩ | ⟨_, _, -, -, he⟩
      · cases he
        exact .inr ⟨name, rfl, congrArg Group.preset hg⟩
      · cases he
    · refine .inl ?_
      show ((s.state.act a).group id).preset = _
      rw [hg]
    · exact .inl hp

namespace IsTame

variable {s : Session} (h : s.IsTame)
include h

theorem withFiles (fs : Files) : IsTame { s with files := fs } := ⟨h.offer, h.presets⟩

theorem update [Wording] {m : Message} (hm : s.ChoosesOffered m) : (s.update m).IsTame where
  offer := by
    rw [vocabulary_update]
    cases ha : s.act? m with
    | none => exact h.offer
    | some a =>
      cases a with
      | edit e => exact h.offer
      | names v => exact isOffer_of_act? ha
  presets id := by
    rcases s.preset_group_update m id with hp | ⟨name, he, hp⟩
    · rw [hp]
      exact h.presets id
    · rw [hp]
      exact Vocabulary.isLine_of_mem_presets h.offer (hm id name he)

theorem runAmid [Wording] {es : List (Files × Message)} (he : s.AlwaysChoosesOffered es) : (s.runAmid es).IsTame := by
  induction es generalizing s with
  | nil => exact h
  | cons e es ih => exact ih ((h.withFiles e.1).update he.1) he.2

end IsTame

/-! ## Orders that were given -/

/-- The preset that a message orders, if one was chosen and there is a device. -/
def ordered? (s : Session) (m : Message) : Option String :=
  if m = .start ∧ s.preset ≠ "" ∧ s.preset ≠ notSet ∧ s.channel.isSome then some s.preset else none

theorem ordered?_of_ne {s : Session} {m : Message} (h : m ≠ .start) : s.ordered? m = none := if_neg fun hr => h hr.1

theorem eq_preset_of_ordered? {s : Session} {m : Message} {name : String} (h : s.ordered? m = some name) :
    name = s.preset := by
  unfold ordered? at h
  split at h
  · exact (Option.some.inj h).symm
  · cases h

def ordered [Wording] (s : Session) : List (Files × Message) → List String
  | [] => []
  | (fs, m) :: es => (s.ordered? m).toList ++ ({ s with files := fs }.update m).ordered es

/-- With a reliable writer the wire has the orders for some presets on it and nothing else. -/
structure HasSent (s : Session) (names : List String) : Prop where
  reliable : ∀ c, s.channel = some c → c.writer.IsReliable
  wire : s.wire = orderBytes names

namespace HasSent

variable {s : Session} {names : List String} (h : s.HasSent names)
include h

theorem of_channel {t : Session} (hc : t.channel = s.channel) : t.HasSent names := by
  refine ⟨fun c hs => h.reliable c (hc.symm.trans hs), ?_⟩
  unfold Session.wire
  rw [hc]
  exact h.wire

theorem start : s.start.HasSent (names ++ (s.ordered? .start).toList) := by
  by_cases hi : s.preset = "" ∨ s.preset = notSet ∨ s.channel = none
  · have hn : s.ordered? .start = none := by
      refine if_neg fun ⟨_, h₁, h₂, hc⟩ => ?_
      rw [(hi.resolve_left h₁).resolve_left h₂] at hc
      cases hc
    rw [hn, Option.toList_none, List.append_nil]
    exact h.of_channel (start_of_idle hi).1
  · simp only [not_or] at hi
    obtain ⟨c, hc⟩ := Option.ne_none_iff_exists'.mp hi.2.2
    obtain ⟨-, hr, hw⟩ := Channel.send_of_reliable (h.reliable c hc) s.state.startOrder
    have hch := (start_of_ready hi.1 hi.2.1 hc).1
    have hs : s.ordered? .start = some s.preset :=
      if_pos ⟨rfl, hi.1, hi.2.1, by rw [hc]; rfl⟩
    have hwire : c.wire = orderBytes names := by
      have := h.wire
      unfold Session.wire at this
      rwa [hc] at this
    rw [hs, Option.toList_some]
    constructor
    · intro d hd
      rw [hch] at hd
      cases hd
      exact hr
    · unfold Session.wire
      rw [hch, orderBytes_concat, ← hwire]
      exact hw

theorem update [Wording] (m : Message) : (s.update m).HasSent (names ++ (s.ordered? m).toList) := by
  by_cases hm : m = .start
  · subst hm
    exact h.start
  · rw [ordered?_of_ne hm, Option.toList_none, List.append_nil]
    exact h.of_channel (s.update_frame hm).1

theorem runAmid [Wording] (es : List (Files × Message)) : (s.runAmid es).HasSent (names ++ s.ordered es) := by
  induction es generalizing s names with
  | nil =>
    show s.HasSent (names ++ [])
    rw [List.append_nil]
    exact h
  | cons e es ih =>
    have hs : HasSent { s with files := e.1 } names := h.of_channel rfl
    have := ih (hs.update e.2)
    rw [List.append_assoc] at this
    exact this

end HasSent

theorem isLine_of_mem_ordered [Wording] {es : List (Files × Message)} :
    ∀ {s : Session}, s.IsTame → s.AlwaysChoosesOffered es →
    ∀ name ∈ s.ordered es, IsLine name := by
  induction es with
  | nil => intro s _ _ name hm; cases hm
  | cons e es ih =>
    intro s h he name hm
    rcases List.mem_append.mp hm with hm | hm
    · rw [eq_preset_of_ordered? (Option.mem_toList.mp hm)]
      exact h.presets .first
    · exact ih ((h.withFiles e.1).update he.1) he.2 name hm

/-- **No header can inject commands.** When presets are only chosen among the names that are offered, no
preset ever has a line feed in it, whatever the headers say. Over a reliable writer every order is sent, and
all that the device gets are the two lines of each order, off which the presets can be read. -/
theorem no_injection [Wording] {v : Vocabulary} (hv : v.IsOffer) (store : Store) (files : Files)
    (channel : Option Channel) (greeting : String) {es : List (Files × Message)}
    (he : (opened store files (.fresh v) channel greeting).AlwaysChoosesOffered es) :
    (∀ id, IsLine (((opened store files (.fresh v) channel greeting).runAmid es).state.group id).preset) ∧
    ((∀ c, channel = some c → c.wire = [] ∧ c.writer.IsReliable) →
      (∀ c o, ((opened store files (.fresh v) channel greeting).runAmid es).channel = some c →
        (c.send o).error? = none) ∧
      unfinished ((opened store files (.fresh v) channel greeting).runAmid es).wire = [] ∧
      (wireLines ((opened store files (.fresh v) channel greeting).runAmid es).wire).length =
        2 * ((opened store files (.fresh v) channel greeting).ordered es).length ∧
      wireLines ((opened store files (.fresh v) channel greeting).runAmid es).wire =
        ((opened store files (.fresh v) channel greeting).ordered es).flatMap
          (fun name => [presetText name, startText]) ∧
      ∀ names : List String, wireLines ((opened store files (.fresh v) channel greeting).runAmid es).wire =
          names.flatMap (fun name => [presetText name, startText]) →
        names = (opened store files (.fresh v) channel greeting).ordered es) := by
  generalize hs : opened store files (.fresh v) channel greeting = s at he ⊢
  have htame : s.IsTame := by
    subst hs
    have hnone : IsLine notSet := by unfold IsLine; decide
    exact ⟨hv, fun id => by cases id <;> exact hnone⟩
  refine ⟨(htame.runAmid he).presets, fun hc => ?_⟩
  have hsent : s.HasSent [] := by
    subst hs
    refine ⟨fun c h => (hc c h).2, ?_⟩
    cases channel with
    | none => rfl
    | some c => exact (hc c rfl).1
  have hwire : (s.runAmid es).wire = orderBytes (s.ordered es) := (hsent.runAmid es).wire
  have hlines : wireLines (s.runAmid es).wire = orderLines (s.ordered es) := by
    rw [hwire]
    exact wireLines_orderBytes (isLine_of_mem_ordered htame he)
  refine ⟨fun c o hs => ?_, ?_, ?_, hlines, fun names hn => ?_⟩
  · exact (Channel.send_of_reliable ((hsent.runAmid es).reliable c hs) o).1
  · rw [hwire]
    exact unfinished_orderBytes _
  · rw [hlines]
    exact length_orderLines _
  · exact orderLines_injective (hn.symm.trans hlines)

section

attribute [local instance] Wording.plain

/-- A preset with a carriage return in it is chosen from one header and sent after another one was loaded,
over a writer that takes some bytes at a time. -/
theorem no_injection_outlived :
    ∃ (s : Session) (es : List (Files × Message)), s.AlwaysChoosesOffered es ∧
      "8_2_1\r" ∉ (s.runAmid es).state.vocabulary.presets ∧ s.ordered es = ["8_2_1\r"] ∧
      wireLines (s.runAmid es).wire = [presetText "8_2_1\r", startText] := by
  let fs : Files := ⟨[(["a.h"], .file "preset.name = x = \"8_2_1\r\"".toUTF8)], [], []⟩
  let gs : Files := ⟨[(["a.h"], .file "".toUTF8)], [], []⟩
  let c : Channel := ⟨"tty0", { writes := [.upTo 5, .fault .interrupted, .upTo 30] }⟩
  let s : Session := opened ⟨"bct.toml", {}⟩ fs (.fresh .builtIn) (some c) ""
  let es : List (Files × Message) := [(fs, .headerChosen (some "a.h")), (fs, .edit (.group .first (.preset "8_2_1\r"))),
    (gs, .headerChosen (some "a.h")), (gs, .start)]
  have he : s.AlwaysChoosesOffered es := by
    refine ⟨?_, ?_, ?_, ?_, trivial⟩
    · intro id name h; cases h
    · intro id name h; cases h; decide +kernel
    · intro id name h; cases h
    · intro id name h; cases h
  have hc : ∀ d, some c = some d → d.wire = [] ∧ d.writer.IsReliable := by
    intro d hd
    cases hd
    refine ⟨rfl, rfl, ?_, ?_⟩
    · simp [c, WriteReply.IsGood]
    · simp [c]
  have hs : s.ordered es = ["8_2_1\r"] := by decide +kernel
  have hlines := ((no_injection (.inl rfl) ⟨"bct.toml", {}⟩ fs (some c) "" he).2 hc).2.2.2.1
  refine ⟨s, es, he, by decide +kernel, hs, hlines.trans ?_⟩
  exact congrArg orderLines hs

end

end Session

end Broadcast
