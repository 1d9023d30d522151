import Mathlib.Data.List.Induction
import Broadcast.Proofs.Device.Send

/-!
# What the device reads

The device reads the wire line by line. A failed order may leave an unfinished
line on the wire, and nothing ends it: the next bytes continue it. So a success
means two complete lines, of which the first may begin with what was left there.
-/

namespace Broadcast

open Transcript

def cutLines : List UInt8 → List (List UInt8) × List UInt8
  | [] => ([], [])
  | b :: bs =>
    if b = 10 then ([] :: (cutLines bs).1, (cutLines bs).2)
    else
      match cutLines bs with
      | ([], rest) => ([], b :: rest)
      | (l :: ls, rest) => ((b :: l) :: ls, rest)

def wireLines (wire : List UInt8) : List (List UInt8) := (cutLines wire).1

def unfinished (wire : List UInt8) : List UInt8 := (cutLines wire).2

theorem cutLines_cons_newline (bs : List UInt8) : cutLines (10 :: bs) = ([] :: (cutLines bs).1, (cutLines bs).2) :=
  if_pos rfl

theorem cutLines_cons {b : UInt8} (hb : b ≠ 10) (bs : List UInt8) :
    cutLines (b :: bs) =
      match cutLines bs with
      | ([], rest) => ([], b :: rest)
      | (l :: ls, rest) => ((b :: l) :: ls, rest) :=
  if_neg hb

theorem cutLines_append_newline (xs ys : List UInt8) :
    cutLines (xs ++ 10 :: ys) = ((cutLines xs).1 ++ (cutLines xs).2 :: (cutLines ys).1, (cutLines ys).2) := by
  induction xs with
  | nil => exact cutLines_cons_newline ys
  | cons x xs ih =>
    rw [List.cons_append]
    by_cases hx : x = 10
    · rw [hx, cutLines_cons_newline, cutLines_cons_newline, ih]; rfl
    · rw [cutLines_cons hx, cutLines_cons hx, ih]
      rcases cutLines xs with ⟨_ | ⟨l, ls⟩, rest⟩ <;> rfl

theorem cutLines_append_of_notMem (xs : List UInt8) {ys : List UInt8} (h : 10 ∉ ys) :
    cutLines (xs ++ ys) = ((cutLines xs).1, (cutLines xs).2 ++ ys) := by
  induction xs with
  | nil =>
    induction ys with
    | nil => rfl
    | cons y ys ih =>
      have hy : y ≠ 10 := fun he => h (he ▸ List.mem_cons_self)
      have ih := ih (fun hm => h (List.mem_cons_of_mem y hm))
      rw [List.nil_append] at ih ⊢
      rw [cutLines_cons hy, ih]
      rfl
  | cons x xs ih =>
    rw [List.cons_append]
    by_cases hx : x = 10
    · rw [hx, cutLines_cons_newline, cutLines_cons_newline, ih]
    · rw [cutLines_cons hx, cutLines_cons hx, ih]
      rcases cutLines xs with ⟨_ | ⟨l, ls⟩, rest⟩ <;> rfl

theorem unfinished_append {xs ys : List UInt8} (h : ys ≠ []) : unfinished (xs ++ ys) = [] ↔ unfinished ys = [] := by
  unfold unfinished
  by_cases hm : 10 ∈ ys
  · obtain ⟨l, r, rfl⟩ := List.append_of_mem hm
    rw [← List.append_assoc, cutLines_append_newline, cutLines_append_newline]
  · have h₁ := cutLines_append_of_notMem xs hm
    have h₂ := cutLines_append_of_notMem [] hm
    rw [List.nil_append] at h₂
    rw [h₁, h₂, List.append_eq_nil_iff]
    exact ⟨fun he => he.2, fun he => absurd he h⟩

theorem unfinished_append_newline (xs : List UInt8) : unfinished (xs ++ [10]) = [] := by
  unfold unfinished; rw [cutLines_append_newline]; rfl

def presetText (name : String) : List UInt8 := ("bct preset " ++ name ++ " 0 0").toUTF8.toList

def startText : List UInt8 := "bct start 0".toUTF8.toList

theorem presetLine_eq (name : String) : presetLine name = presetText name ++ [10] := by
  have hb : (Command.preset name 0 0).bytes = presetLine name := (List.cons.inj (StartOrder.bytes_commands ⟨name⟩)).1
  have ht : (Command.preset name 0 0).text = "bct preset " ++ name ++ " 0 0" :=
    (List.cons.inj (StartOrder.text_commands ⟨name⟩)).1
  unfold presetText
  rw [← hb, ← ht, Command.bytes_eq]

theorem startLine_eq : startLine = startText ++ [10] := (Command.start 0).bytes_eq

namespace Channel

def opened (port : String) (writes : List WriteReply) (flushes : List (Option WriteFault)) : Channel :=
  ⟨port, { writes, flushes }⟩

def wire (c : Channel) : List UInt8 := c.writer.wire

/-- The bytes of an order that are accepted when it is sent. -/
def accepts (c : Channel) (o : StartOrder) : List UInt8 := (c.send o).channel.wire.drop c.wire.length

theorem wire_send (c : Channel) (o : StartOrder) :
    (c.send o).channel.wire = c.wire ++ c.accepts o ∧
      ((c.send o).error? = none → c.accepts o = presetLine o.preset ++ startLine) := by
  obtain ⟨t, k, f, hp, hs, he, -⟩ := sending_sendAll o.commands c
  rw [o.bytes_commands] at hs
  have hw : (c.send o).channel.wire = c.wire ++ accepted t := hp.wire.1
  have ha : c.accepts o = accepted t := by unfold accepts; rw [hw, List.drop_left]
  rw [ha]
  refine ⟨hw, fun hn => ?_⟩
  have hr : (c.send o).error? = f.map (.writing c.port) := he
  rw [hr, Option.map_eq_none_iff] at hn
  simpa using hs.accepted_of_done hn

theorem wire_after_append (c : Channel) (orders more : List StartOrder) :
    (c.after orders).wire <+: (c.after (orders ++ more)).wire := by
  rw [after_append]
  generalize c.after orders = c
  induction more generalizing c with
  | nil => exact List.prefix_rfl
  | cons o more ih => exact List.IsPrefix.trans ⟨_, (wire_send c o).1.symm⟩ (ih (c.send o).channel)

theorem unfinished_of_ok {c : Channel} {o : StartOrder} (h : (c.send o).error? = none) :
    unfinished (c.accepts o) = [] := by
  rw [(wire_send c o).2 h, startLine_eq, ← List.append_assoc]
  exact unfinished_append_newline _

/-- An order failed inside a line, and nothing was accepted after it. -/
def LeavesUnfinished (c : Channel) (orders : List StartOrder) : Prop :=
  ∃ pre x post, orders = pre ++ x :: post ∧ ((c.after pre).send x).error? ≠ none ∧
    unfinished ((c.after pre).accepts x) ≠ [] ∧ (c.after orders).wire = ((c.after pre).send x).channel.wire

theorem unfinished_after (c : Channel) (hc : c.wire = []) (orders : List StartOrder) :
    unfinished (c.after orders).wire ≠ [] ↔ c.LeavesUnfinished orders := by
  constructor
  · induction orders using List.reverseRecOn with
    | nil => intro h; exact absurd (congrArg unfinished hc) h
    | append_singleton orders o ih =>
      intro h
      unfold LeavesUnfinished
      rw [after_concat] at h ⊢
      obtain ⟨hw, -⟩ := wire_send (c.after orders) o
      by_cases hn : (c.after orders).accepts o = []
      · -- nothing of the order was accepted, so the line is an older one
        rw [hn, List.append_nil] at hw
        rw [hw] at h ⊢
        obtain ⟨pre, x, post, rfl, hf, hu, hsame⟩ := ih h
        exact ⟨pre, x, post ++ [o], by simp, hf, hu, hsame⟩
      · have hu : unfinished ((c.after orders).accepts o) ≠ [] := by
          rw [hw] at h
          exact fun he => h ((unfinished_append hn).mpr he)
        exact ⟨orders, o, [], rfl, fun he => hu (unfinished_of_ok he), hu, rfl⟩
  · rintro ⟨pre, x, post, -, -, hu, hsame⟩
    have hne : (c.after pre).accepts x ≠ [] := fun he => hu (congrArg unfinished he)
    rw [hsame, (wire_send _ x).1]
    exact fun he => hu ((unfinished_append hne).mp he)

end Channel

theorem newline_notMem_presetText {name : String} (h : '\n' ∉ name.toList) : 10 ∉ presetText name := by
  refine newline_notMem_toUTF8 fun hm => ?_
  rw [String.toList_append, String.toList_append, List.mem_append, List.mem_append] at hm
  rcases hm with (hm | hm) | hm
  · exact absurd hm (by decide)
  · exact h hm
  · exact absurd hm (by decide)

theorem wireLines_order (xs : List UInt8) {name : String} (h : '\n' ∉ name.toList) (ys : List UInt8) :
    wireLines (xs ++ (presetLine name ++ startLine) ++ ys) =
      wireLines xs ++ [unfinished xs ++ presetText name, startText] ++ wireLines ys := by
  have hs : 10 ∉ startText := newline_notMem_toUTF8 (by decide)
  have hsplit : xs ++ (presetLine name ++ startLine) ++ ys =
      (xs ++ presetText name) ++ 10 :: (startText ++ 10 :: ys) := by
    rw [presetLine_eq, startLine_eq]; simp
  have hstart := cutLines_append_of_notMem [] hs
  rw [List.nil_append] at hstart
  unfold wireLines unfinished
  rw [hsplit, cutLines_append_newline, cutLines_append_newline, hstart,
    cutLines_append_of_notMem xs (newline_notMem_presetText h)]
  simp [cutLines]

/-- **What a success means to the device.** The two commands are read, one right
after the other; the first is read behind what was left of an order that failed
inside a line, if nothing was accepted since. -/
theorem Channel.wireLines_of_ok (port : String) (writes : List WriteReply) (flushes : List (Option WriteFault))
    (before later : List StartOrder) (o : StartOrder) (hname : '\n' ∉ o.preset.toList)
    (hok : (((opened port writes flushes).after before).send o).error? = none) :
    ∃ part rest,
      wireLines ((opened port writes flushes).after (before ++ o :: later)).wire =
        wireLines ((opened port writes flushes).after before).wire ++
          [part ++ presetText o.preset, startText] ++ rest ∧
      part = unfinished ((opened port writes flushes).after before).wire ∧
      (part = [] ↔ ¬ (opened port writes flushes).LeavesUnfinished before) := by
  have hempty : (opened port writes flushes).wire = [] := rfl
  generalize opened port writes flushes = c at hok hempty ⊢
  obtain ⟨ys, hys⟩ := c.wire_after_append (before ++ [o]) later
  have hw : (c.after (before ++ [o])).wire = (c.after before).wire ++ (presetLine o.preset ++ startLine) := by
    rw [after_concat, (wire_send _ o).1, (wire_send _ o).2 hok]
  have happ : before ++ o :: later = before ++ [o] ++ later := by simp
  refine ⟨unfinished (c.after before).wire, wireLines ys, ?_, rfl, ?_⟩
  · rw [happ, ← hys, hw]
    exact wireLines_order _ hname ys
  · rw [← unfinished_after c hempty before]
    exact Decidable.not_not.symm

/-- The first order stops inside its first line; the second one goes well after an interrupted call. -/
theorem Channel.wireLines_after_failure :
    ∃ part rest,
      wireLines ((opened "p" [.upTo 5, .fault .brokenPipe, .upTo 3, .fault .interrupted, .upTo 20] []).after
          ([⟨"8_1_1"⟩] ++ ⟨"16_2_1"⟩ :: [⟨"24_1_1"⟩])).wire =
        wireLines ((opened "p" [.upTo 5, .fault .brokenPipe, .upTo 3, .fault .interrupted, .upTo 20] []).after
          [⟨"8_1_1"⟩]).wire ++ [part ++ presetText "16_2_1", startText] ++ rest ∧
      part = unfinished ((opened "p" [.upTo 5, .fault .brokenPipe, .upTo 3, .fault .interrupted, .upTo 20] []).after
          [⟨"8_1_1"⟩]).wire ∧
      (part = [] ↔ ¬ (opened "p" [.upTo 5, .fault .brokenPipe, .upTo 3, .fault .interrupted, .upTo 20]
        []).LeavesUnfinished [⟨"8_1_1"⟩]) :=
  wireLines_of_ok "p" [.upTo 5, .fault .brokenPipe, .upTo 3, .fault .interrupted, .upTo 20] []
    [⟨"8_1_1"⟩] [⟨"24_1_1"⟩] ⟨"16_2_1"⟩ (by decide) (by decide +kernel)

/-- Nothing ends the line that a failed order leaves behind: the next order succeeds,
but its first command is not among the lines the device reads. -/
theorem Channel.preset_lost_after_failure :
    (((opened "p" [.upTo 5, .fault .brokenPipe] []).after [⟨"8_1_1"⟩]).send ⟨"16_2_1"⟩).error? = none ∧
      ¬ ∃ pre post, wireLines
        (((opened "p" [.upTo 5, .fault .brokenPipe] []).after [⟨"8_1_1"⟩]).send ⟨"16_2_1"⟩).channel.wire =
          pre ++ [presetText "16_2_1", startText] ++ post := by
  refine ⟨by decide +kernel, ?_⟩
  rintro ⟨pre, post, h⟩
  have hlost : presetText "16_2_1" ∉ wireLines
      (((opened "p" [.upTo 5, .fault .brokenPipe] []).after [⟨"8_1_1"⟩]).send ⟨"16_2_1"⟩).channel.wire := by
    decide +kernel
  rw [h] at hlost
  exact hlost (by simp)

end Broadcast
