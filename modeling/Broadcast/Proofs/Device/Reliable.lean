import Broadcast.Proofs.Device.Wire

/-!
# Writers that do not fail

A writer that takes a byte with every call, or has to be called again, takes
every order whole. Then the device reads the two lines of each order and nothing
else. No preset that is a single line can make them look like other orders.
-/

namespace Broadcast

/-- The call takes some of the bytes, or is only interrupted. -/
def WriteReply.IsGood : WriteReply → Prop
  | all => True
  | upTo n => 0 < n
  | fault f => f = .interrupted

structure Writer.IsReliable (w : Writer) : Prop where
  here : w.gone = false
  writes : ∀ r ∈ w.writes, r.IsGood
  flushes : ∀ f ∈ w.flushes, f = none

theorem writeAll_of_good (replies : List WriteReply) (bytes : List UInt8) (h : ∀ r ∈ replies, r.IsGood) :
    (writeAll replies bytes).fault? = none ∧ ∀ r ∈ (writeAll replies bytes).replies, r.IsGood := by
  fun_induction writeAll replies bytes with
  | case1 replies => exact ⟨rfl, h⟩
  | case2 bytes hb => exact ⟨rfl, h⟩
  | case3 replies bytes hb => exact ⟨rfl, fun r hr => h r (List.mem_cons_of_mem _ hr)⟩
  | case4 replies bytes hb ih => exact ih fun r hr => h r (List.mem_cons_of_mem _ hr)
  | case5 f replies bytes hb hf => exact absurd (h _ List.mem_cons_self) hf
  | case6 replies bytes hb => exact absurd (h _ List.mem_cons_self) (Nat.lt_irrefl 0)
  | case7 n replies bytes hb hn ih => exact ih fun r hr => h r (List.mem_cons_of_mem _ hr)

namespace Writer.IsReliable

variable {w : Writer} (h : w.IsReliable)
include h

theorem write (bytes : List UInt8) : (w.write bytes).2 = none ∧ (w.write bytes).1.IsReliable := by
  obtain ⟨hf, hr⟩ := writeAll_of_good w.writes bytes h.writes
  rw [write_of_here h.here]
  exact ⟨hf, h.here, hr, h.flushes⟩

theorem flush : w.flush.2 = none ∧ w.flush.1.IsReliable := by
  refine ⟨?_, h.here, h.writes, fun f hf => h.flushes f (List.mem_of_mem_tail hf)⟩
  unfold Writer.flush
  cases hw : w.flushes with
  | nil => rfl
  | cons f fs => exact h.flushes f (by rw [hw]; exact List.mem_cons_self)

theorem send (bytes : List UInt8) : (w.send bytes).2 = none ∧ (w.send bytes).1.IsReliable := by
  obtain ⟨hn, hw⟩ := h.write bytes
  rcases hwr : w.write bytes with ⟨v, f⟩
  rw [hwr] at hn hw
  obtain rfl : f = none := hn
  simp only [Writer.send, hwr]
  exact hw.flush

end Writer.IsReliable

namespace Channel

theorem sendAll_of_reliable (commands : List Command) : ∀ {c : Channel}, c.writer.IsReliable →
    (c.sendAll commands).error? = none ∧ (c.sendAll commands).channel.writer.IsReliable := by
  induction commands with
  | nil => exact fun h => ⟨rfl, h⟩
  | cons command commands ih =>
    intro c h
    obtain ⟨hn, hw⟩ := h.send command.bytes
    rcases hs : c.writer.send command.bytes with ⟨v, f⟩
    rw [hs] at hn hw
    obtain rfl : f = none := hn
    rw [sendAll_of_sent hs]
    exact ih (c := { c with writer := v }) hw

theorem send_of_reliable {c : Channel} (h : c.writer.IsReliable) (o : StartOrder) :
    (c.send o).error? = none ∧ (c.send o).channel.writer.IsReliable ∧
      (c.send o).channel.wire = c.wire ++ (presetLine o.preset ++ startLine) := by
  obtain ⟨hn, hr⟩ := sendAll_of_reliable o.commands h
  refine ⟨hn, hr, ?_⟩
  rw [(wire_send c o).1, (wire_send c o).2 hn]

end Channel

/-! ## Reading the orders off the wire -/

def orderBytes (names : List String) : List UInt8 := names.flatMap fun name => presetLine name ++ startLine

theorem orderBytes_concat (names : List String) (name : String) :
    orderBytes (names ++ [name]) = orderBytes names ++ (presetLine name ++ startLine) := by
  simp [orderBytes]

def orderLines (names : List String) : List (List UInt8) := names.flatMap fun name => [presetText name, startText]

theorem length_orderLines (names : List String) : (orderLines names).length = 2 * names.length := by
  induction names with
  | nil => rfl
  | cons name names ih =>
    show (orderLines names).length + 1 + 1 = 2 * (names.length + 1)
    rw [ih]
    rfl

theorem wireLines_orderBytes {names : List String} (h : ∀ name ∈ names, '\n' ∉ name.toList) :
    wireLines (orderBytes names) = orderLines names := by
  induction names with
  | nil => rfl
  | cons name names ih =>
    have hl := wireLines_order [] (h name List.mem_cons_self) (orderBytes names)
    rw [ih fun n hn => h n (List.mem_cons_of_mem _ hn)] at hl
    exact hl

theorem unfinished_orderBytes (names : List String) : unfinished (orderBytes names) = [] := by
  induction names using List.reverseRecOn with
  | nil => rfl
  | append_singleton names name ih =>
    rw [orderBytes_concat, startLine_eq, ← List.append_assoc, ← List.append_assoc]
    exact unfinished_append_newline _

theorem presetText_injective {a b : String} (h : presetText a = presetText b) : a = b := by
  have ht := congrArg String.toList (toList_toUTF8_injective h)
  simp only [String.toList_append] at ht
  exact String.toList_injective (List.append_cancel_left (List.append_cancel_right ht))

/-- **The orders can be read off their lines.** -/
theorem orderLines_injective : ∀ {names others : List String}, orderLines names = orderLines others → names = others
  | [], [], _ => rfl
  | [], _ :: _, h => by cases h
  | _ :: _, [], h => by cases h
  | name :: names, other :: others, h => by
    obtain ⟨hp, hr⟩ := List.cons.inj h
    rw [presetText_injective hp, orderLines_injective (List.cons.inj hr).2]

end Broadcast
