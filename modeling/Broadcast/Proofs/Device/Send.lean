import Broadcast.Device.Channel
import Broadcast.Proofs.Device.Calls
import Broadcast.Proofs.Text.Bytes

/-!
# Sending by calls

Sending an order makes calls that follow the rules for its two lines and gets
the answers its writer gives. So whatever the writer does, the wire grows by a
front part of the two lines, success means that both were accepted and flushed,
and what is logged, what is offered and when it stops agree.
-/

namespace Broadcast

open Transcript

def Command.bytes (c : Command) : List UInt8 := c.line.toUTF8.toList

theorem Command.bytes_eq (c : Command) : c.bytes = c.text.toUTF8.toList ++ [10] := by
  unfold bytes line
  rw [toList_toUTF8_append, toList_toUTF8 "\n"]
  rfl

theorem Command.bytes_ne_nil (c : Command) : c.bytes ≠ [] := by
  rw [bytes_eq]; exact List.append_ne_nil_of_right_ne_nil _ (List.cons_ne_nil _ _)

def Writer.afterWriting (w : Writer) (r : Written) : Writer :=
  { w with writes := r.replies, wire := w.wire ++ r.accepted, writeCalls := w.writeCalls + r.calls }

theorem Writer.afterWriting_afterCall (w : Writer) (b : List UInt8) (r : Written) (replies : List WriteReply) :
    ({ w with writes := replies, writeCalls := w.writeCalls + 1, wire := w.wire ++ b } : Writer).afterWriting r =
      w.afterWriting (r.afterCall b) := by
  simp only [afterWriting, Written.afterCall, List.append_assoc, Nat.add_assoc, Nat.add_comm 1]

theorem Writer.answer_write {w : Writer} (hg : w.gone = false) {r : WriteReply} {rs : List WriteReply}
    (hw : w.writes = r :: rs) (bytes : List UInt8) :
    w.answer (.write bytes) =
      match r with
      | .all => (.accepted bytes.length,
          { w with writes := rs, writeCalls := w.writeCalls + 1, wire := w.wire ++ bytes })
      | .upTo n => (.accepted (min n bytes.length),
          { w with writes := rs, writeCalls := w.writeCalls + 1, wire := w.wire ++ bytes.take n })
      | .fault f => (.failed f, { w with writes := rs, writeCalls := w.writeCalls + 1 }) := by
  simp only [answer, hg, hw, Bool.false_eq_true, ite_false, List.tail_cons, List.head?_cons, Option.getD_some]
  cases r <;> rfl

theorem writing_writeAll (replies : List WriteReply) (bytes : List UInt8) : ∀ w : Writer, w.gone = false →
    w.writes = replies → ∃ t, Performs w t (w.afterWriting (writeAll replies bytes)) ∧
      Writing bytes t (writeAll replies bytes).fault? ∧
      writes t + (writeAll replies bytes).replies.length ≤ replies.length + 1 := by
  fun_induction writeAll replies bytes with
  | case1 replies =>
    rintro w - rfl
    refine ⟨[], ?_, .done, by simp⟩
    simp only [Writer.afterWriting, List.append_nil, Nat.add_zero]
    exact .nil w
  | case2 bytes hb =>
    intro w hg hw
    have ha : w.answer (.write bytes) = (.accepted bytes.length, w.afterWriting ⟨bytes, [], 1, none⟩) := by
      simp [Writer.answer, Writer.afterWriting, hg, hw]
    refine ⟨[(.write bytes, .accepted bytes.length)], .cons ha (.nil _), ?_, by simp⟩
    exact .part hb (List.length_pos_iff.mpr hb) (by rw [List.drop_length]; exact .done)
  | case3 replies bytes hb =>
    intro w hg hw
    refine ⟨[(.write bytes, .accepted bytes.length)], .cons (Writer.answer_write hg hw bytes) (.nil _), ?_, ?_⟩
    · exact .part hb (List.length_pos_iff.mpr hb) (by rw [List.drop_length]; exact .done)
    · simp; omega
  | case4 replies bytes hb ih =>
    intro w hg hw
    let v : Writer := { w with writes := replies, writeCalls := w.writeCalls + 1, wire := w.wire ++ [] }
    obtain ⟨t, hp, hr, hn⟩ := ih v hg rfl
    rw [Writer.afterWriting_afterCall] at hp
    have ha : w.answer (.write bytes) = (.failed .interrupted, v) := by
      rw [Writer.answer_write hg hw]; simp [v]
    exact ⟨_, .cons ha hp, .again hb hr, by simp [Written.afterCall] at hn ⊢; omega⟩
  | case5 f replies bytes hb hf =>
    intro w hg hw
    have ha : w.answer (.write bytes) = (.failed f, w.afterWriting ⟨[], replies, 1, some f⟩) := by
      rw [Writer.answer_write hg hw]; simp [Writer.afterWriting]
    exact ⟨_, .cons ha (.nil _), .failed hb (fun he => hf he), by simp; omega⟩
  | case6 replies bytes hb =>
    intro w hg hw
    have ha : w.answer (.write bytes) = (.accepted 0, w.afterWriting ⟨[], replies, 1, some .nothingWritten⟩) := by
      rw [Writer.answer_write hg hw]; simp [Writer.afterWriting]
    exact ⟨_, .cons ha (.nil _), .nothing hb, by simp; omega⟩
  | case7 n replies bytes hb hn ih =>
    intro w hg hw
    let v : Writer := { w with writes := replies, writeCalls := w.writeCalls + 1, wire := w.wire ++ bytes.take n }
    obtain ⟨t, hp, hr, hl⟩ := ih v hg rfl
    rw [Writer.afterWriting_afterCall] at hp
    have ha : w.answer (.write bytes) = (.accepted (min n bytes.length), v) := Writer.answer_write hg hw bytes
    have hpos : 0 < min n bytes.length := by
      have := List.length_pos_iff.mpr hb
      have : n ≠ 0 := fun h0 => hn h0
      omega
    have hd : bytes.drop (min n bytes.length) = bytes.drop n := by
      rcases Nat.le_total n bytes.length with h | h
      · rw [Nat.min_eq_left h]
      · rw [Nat.min_eq_right h, List.drop_length, List.drop_eq_nil_of_le h]
    exact ⟨_, .cons ha hp, .part hb hpos (by rw [hd]; exact hr), by simp [Written.afterCall] at hl ⊢; omega⟩

theorem Performs.flush {w : Writer} {f : Option WriteFault} (h : w.flush.2 = f) :
    Performs w [(.flush, f.elim .flushed .failed)] w.flush.1 := by
  refine .cons ?_ (.nil _)
  subst h
  unfold Writer.answer Writer.flush
  cases w.flushes.head?.getD none <;> rfl

theorem Writer.write_of_gone {w : Writer} (hg : w.gone = true) (bytes : List UInt8) :
    w.write bytes = ({ w with writeCalls := w.writeCalls + 1 }, some .hungUp) :=
  if_pos hg

theorem Writer.write_of_here {w : Writer} (hg : w.gone = false) (bytes : List UInt8) :
    w.write bytes = (w.afterWriting (writeAll w.writes bytes), (writeAll w.writes bytes).fault?) :=
  if_neg (by rw [hg]; exact Bool.false_ne_true)

theorem writing_write (w : Writer) {bytes : List UInt8} (hb : bytes ≠ []) :
    ∃ t, Performs w t (w.write bytes).1 ∧ Writing bytes t (w.write bytes).2 ∧
      writes t + (w.write bytes).1.writes.length ≤ w.writes.length + 1 := by
  cases hg : w.gone with
  | true =>
    rw [Writer.write_of_gone hg]
    have ha : w.answer (.write bytes) = (.failed .hungUp, { w with writeCalls := w.writeCalls + 1 }) := if_pos hg
    exact ⟨_, .cons ha (.nil _), .failed hb (by decide), by simp; omega⟩
  | false =>
    rw [Writer.write_of_here hg]
    exact writing_writeAll w.writes bytes w hg rfl

/-! ## Orders -/

namespace Channel

def sentRecord (c : Channel) (command : Command) : Record :=
  record .info ("Sent to " ++ c.port ++ ": " ++ command.text)

theorem sendAll_of_fault {c : Channel} {command : Command} {w : Writer} {f : WriteFault}
    (h : c.writer.send command.bytes = (w, some f)) (commands : List Command) :
    c.sendAll (command :: commands) = ⟨{ c with writer := w }, [], some (.writing c.port f)⟩ := by
  unfold Command.bytes at h
  simp only [sendAll, h]

theorem sendAll_of_sent {c : Channel} {command : Command} {w : Writer}
    (h : c.writer.send command.bytes = (w, none)) (commands : List Command) :
    c.sendAll (command :: commands) =
      { sendAll { c with writer := w } commands with
        log := c.sentRecord command :: (sendAll { c with writer := w } commands).log } := by
  unfold Command.bytes at h
  simp only [sendAll, h]
  rfl

theorem sending_sendAll (commands : List Command) : ∀ c : Channel,
    ∃ t k f, Performs c.writer t (c.sendAll commands).channel.writer ∧
      Sending (commands.map Command.bytes) t k f ∧
      (c.sendAll commands).error? = f.map (.writing c.port) ∧
      (c.sendAll commands).channel.port = c.port ∧
      (c.sendAll commands).log = (commands.take k).map c.sentRecord ∧
      writes t + (c.sendAll commands).channel.writer.writes.length ≤ c.writer.writes.length + commands.length := by
  induction commands with
  | nil => intro c; exact ⟨[], 0, none, .nil _, .done, rfl, rfl, rfl, by simp [sendAll]⟩
  | cons command commands ih =>
    intro c
    obtain ⟨t, hp, hw, hl⟩ := writing_write c.writer command.bytes_ne_nil
    rcases hwr : c.writer.write command.bytes with ⟨w, _ | f⟩
    · rw [hwr] at hp hw hl
      rcases hfl : w.flush with ⟨v, _ | f⟩
      · -- the line was flushed, the others follow
        have hf : Performs w [(.flush, .flushed)] v := by
          have := Performs.flush (congrArg Prod.snd hfl); rwa [hfl] at this
        have hv : v.writes = w.writes := by have := congrArg (·.1.writes) hfl; exact this.symm
        have hs : c.writer.send command.bytes = (v, none) := by simp only [Writer.send, hwr, hfl]
        obtain ⟨u, k, g, hpu, hsu, he, hport, hlog, hlu⟩ := ih { c with writer := v }
        rw [sendAll_of_sent hs]
        refine ⟨t ++ (.flush, .flushed) :: u, k + 1, g, hp.append (hf.append hpu), .line hw hsu, he, hport, ?_, ?_⟩
        · rw [hlog]; rfl
        · rw [writes_append, writes_flush, List.length_cons]
          rw [hv] at hlu
          simp only at hlu hl ⊢; omega
      · have hf : Performs w [(.flush, .failed f)] v := by
          have := Performs.flush (congrArg Prod.snd hfl); rwa [hfl] at this
        have hv : v.writes = w.writes := by have := congrArg (·.1.writes) hfl; exact this.symm
        have hs : c.writer.send command.bytes = (v, some f) := by simp only [Writer.send, hwr, hfl]
        have hsu : Sending ((command :: commands).map Command.bytes) (t ++ [(.flush, .failed f)]) 0 (some f) :=
          .unflushed hw
        rw [sendAll_of_fault hs]
        refine ⟨_, 0, some f, hp.append hf, hsu, rfl, rfl, rfl, ?_⟩
        rw [writes_append, writes_flush, writes_nil, List.length_cons, hv]
        simp only at hl ⊢; omega
    · rw [hwr] at hp hw hl
      have hs : c.writer.send command.bytes = (w, some f) := by simp only [Writer.send, hwr]
      rw [sendAll_of_fault hs]
      refine ⟨t, 0, some f, hp, .unwritten hw, rfl, rfl, rfl, ?_⟩
      rw [List.length_cons]
      simp only at hl ⊢; omega

def after (c : Channel) (orders : List StartOrder) : Channel :=
  orders.foldl (fun c o => (c.send o).channel) c

theorem after_concat (c : Channel) (orders : List StartOrder) (o : StartOrder) :
    c.after (orders ++ [o]) = ((c.after orders).send o).channel := by
  unfold after; rw [List.foldl_append]; rfl

theorem after_append (c : Channel) (orders more : List StartOrder) :
    c.after (orders ++ more) = (c.after orders).after more :=
  List.foldl_append

theorem port_send (c : Channel) (o : StartOrder) : (c.send o).channel.port = c.port := by
  obtain ⟨_, _, _, _, _, _, hport, _⟩ := sending_sendAll o.commands c
  exact hport

theorem port_after (c : Channel) (orders : List StartOrder) : (c.after orders).port = c.port := by
  induction orders generalizing c with
  | nil => rfl
  | cons o orders ih => exact (ih (c.send o).channel).trans (port_send c o)

end Channel

def presetLine (name : String) : List UInt8 := ("bct preset " ++ name ++ " 0 0\n").toUTF8.toList

def startLine : List UInt8 := "bct start 0\n".toUTF8.toList

theorem StartOrder.text_commands (o : StartOrder) :
    o.commands.map Command.text = ["bct preset " ++ o.preset ++ " 0 0", "bct start 0"] := by
  have assoc : ∀ a b c d : String, a ++ b ++ c ++ d ++ c ++ d = a ++ b ++ (c ++ d ++ c ++ d) := by
    intro a b c d; simp only [String.append_assoc]
  have hz : " " ++ Nat.repr 0 ++ " " ++ Nat.repr 0 = " 0 0" := by decide
  have h₁ : (Command.preset o.preset 0 0).text = "bct preset " ++ o.preset ++ " 0 0" := by
    rw [← hz]; exact assoc _ _ _ _
  have h₂ : (Command.start 0).text = "bct start 0" := by decide
  rw [← h₁, ← h₂]
  rfl

theorem StartOrder.bytes_commands (o : StartOrder) :
    o.commands.map Command.bytes = [presetLine o.preset, startLine] := by
  have h₁ : presetLine o.preset = ("bct preset " ++ o.preset ++ " 0 0" ++ "\n").toUTF8.toList := by
    rw [String.append_assoc]; rfl
  have h₂ : o.commands.map Command.bytes = (o.commands.map Command.text).map fun s => (s ++ "\n").toUTF8.toList := by
    rw [List.map_map]; rfl
  rw [h₂, text_commands, h₁]
  rfl

/-- What sending an order does, call by call. -/
structure SendsExactly (c : Channel) (name : String) (r : Sent) (t : Transcript) : Prop where
  performs : Performs c.writer t r.channel.writer
  wire : r.channel.writer.wire = c.writer.wire ++ accepted t
  accepted_prefix : accepted t <+: presetLine name ++ startLine
  ok_iff : r.error? = none ↔ accepted t = presetLine name ++ startLine ∧ flushes t = 2
  /-- The second line is offered only after the first was accepted whole and flushed. -/
  offered : ∀ pre bytes a post, t = pre ++ (.write bytes, a) :: post → bytes ≠ [] ∧
    (flushes pre = 0 ∧ accepted pre ++ bytes = presetLine name ∨
      flushes pre = 1 ∧ presetLine name <+: accepted pre ∧ accepted pre ++ bytes = presetLine name ++ startLine)
  flushed : ∀ pre a post, t = pre ++ (.flush, a) :: post →
    flushes pre = 0 ∧ accepted pre = presetLine name ∨
      flushes pre = 1 ∧ accepted pre = presetLine name ++ startLine
  ends : ∀ pre x post f, t = pre ++ x :: post → fatal? x = some f →
    post = [] ∧ r.error? = some (.writing c.port f)
  error : ∀ e, r.error? = some e → ∃ pre x f, t = pre ++ [x] ∧ fatal? x = some f ∧ e = .writing c.port f
  /-- A line is logged exactly if it was flushed. -/
  log : r.log = (["bct preset " ++ name ++ " 0 0", "bct start 0"].take (flushes t)).map fun text =>
    ⟨.info, "bct_core::device::channel", "Sent to " ++ c.port ++ ": " ++ text, []⟩
  calls : r.channel.writer.writeCalls = c.writer.writeCalls + writes t
  calls_le : writes t ≤ c.writer.writes.length + 2

/-- **The exact effect of sending**, whatever was sent before and whatever the writer does. -/
theorem Channel.send_exactly (c : Channel) (before : List StartOrder) (o : StartOrder) :
    (c.after before).port = c.port ∧
      ∃ t, SendsExactly (c.after before) o.preset ((c.after before).send o) t := by
  refine ⟨port_after c before, ?_⟩
  generalize c.after before = c
  obtain ⟨t, k, f, hp, hs, he, -, hlog, hcalls⟩ := sending_sendAll o.commands c
  rw [o.bytes_commands] at hs
  have hk : flushes t = k := hs.flushes_eq
  have hr : (c.send o).error? = f.map (.writing c.port) := he
  refine ⟨t, hp, hp.wire.1, by simpa using hs.accepted_prefix, ?_, ?_, ?_, ?_, ?_, ?_, hp.wire.2, ?_⟩
  · -- all is well exactly if both lines were flushed, and then both were accepted
    rw [hr, Option.map_eq_none_iff]
    constructor
    · intro hf
      exact ⟨by simpa using hs.accepted_of_done hf, hk.trans (hs.fault_eq_none_iff.mp hf)⟩
    · rintro ⟨-, h2⟩
      exact hs.fault_eq_none_iff.mpr (hk.symm.trans h2)
  · intro pre bytes a post ht
    obtain ⟨hne, hlt, hpre, hacc⟩ := hs.offered ht
    refine ⟨hne, ?_⟩
    have h01 : flushes pre = 0 ∨ flushes pre = 1 := by simp at hlt; omega
    rcases h01 with h | h <;> rw [h] at hpre hacc
    · exact .inl ⟨h, by simpa using hacc⟩
    · exact .inr ⟨h, by simpa using hpre, by simpa using hacc⟩
  · intro pre a post ht
    obtain ⟨hlt, hacc⟩ := hs.flushed ht
    have h01 : flushes pre = 0 ∨ flushes pre = 1 := by simp at hlt; omega
    rcases h01 with h | h <;> rw [h] at hacc
    · exact .inl ⟨h, by simpa using hacc⟩
    · exact .inr ⟨h, by simpa using hacc⟩
  · intro pre x post g ht hx
    obtain ⟨hpost, hf⟩ := hs.ends ht hx
    exact ⟨hpost, by rw [hr, hf]; rfl⟩
  · intro e hee
    rw [hr, Option.map_eq_some_iff] at hee
    obtain ⟨g, hf, rfl⟩ := hee
    obtain ⟨pre, x, ht, hx⟩ := hs.last hf
    exact ⟨pre, x, g, ht, hx, rfl⟩
  · have hl : (c.send o).log = (o.commands.take k).map c.sentRecord := hlog
    rw [hl, hk, ← o.text_commands, List.map_take, List.map_take, List.map_map]
    rfl
  · exact Nat.le_trans (Nat.le_add_right _ _) hcalls

end Broadcast
