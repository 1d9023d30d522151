import Broadcast.Device.Writer

/-!
# Calls to a writer

A writer is called to write what is left of a line and to flush. `Performs` says
what calls made one after the other do to a writer; `Writing` and `Sending` are
the rules by which a line and a sequence of lines are sent, whatever the answers
are. What is offered, when a flush comes and that nothing comes after a fault
holds of every transcript that follows the rules.
-/

namespace Broadcast

inductive Call where
  | write (offered : List UInt8)
  | flush
  deriving DecidableEq, Repr

inductive Answer where
  | accepted (n : Nat)
  | flushed
  | failed (f : WriteFault)
  deriving DecidableEq, Repr

/-- Calls with their answers, the first call first. -/
abbrev Transcript := List (Call × Answer)

/-! ## One writer -/

def Writer.answer (w : Writer) : Call → Answer × Writer
  | .write bytes =>
    if w.gone then (.failed .hungUp, { w with writeCalls := w.writeCalls + 1 })
    else
      let next := { w with writes := w.writes.tail, writeCalls := w.writeCalls + 1 }
      match w.writes.head?.getD .all with
      | .all => (.accepted bytes.length, { next with wire := w.wire ++ bytes })
      | .upTo n => (.accepted (min n bytes.length), { next with wire := w.wire ++ bytes.take n })
      | .fault f => (.failed f, next)
  | .flush =>
    let next := { w with flushes := w.flushes.tail, flushCalls := w.flushCalls + 1 }
    match w.flushes.head?.getD none with
    | none => (.flushed, next)
    | some f => (.failed f, next)

/-- Calls made one after the other, with the answers the writer gives. -/
inductive Performs : Writer → Transcript → Writer → Prop
  | nil (w : Writer) : Performs w [] w
  | cons {w v u : Writer} {c : Call} {a : Answer} {t : Transcript} :
      w.answer c = (a, v) → Performs v t u → Performs w ((c, a) :: t) u

theorem Performs.append {w v u : Writer} {t s : Transcript} (h : Performs w t v) (k : Performs v s u) :
    Performs w (t ++ s) u := by
  induction h with
  | nil _ => exact k
  | cons ha _ ih => exact .cons ha (ih k)

namespace Transcript

def accepted (t : Transcript) : List UInt8 :=
  t.flatMap fun
    | (.write bytes, .accepted n) => bytes.take n
    | _ => []

def flushes (t : Transcript) : Nat := t.countP fun x => x = (.flush, .flushed)

def writes (t : Transcript) : Nat :=
  t.countP fun
    | (.write _, _) => true
    | _ => false

/-- The fault in an answer that ends everything: no byte accepted, or any fault
except that a call to write was interrupted. -/
def fatal? : Call × Answer → Option WriteFault
  | (.write _, .accepted 0) => some .nothingWritten
  | (.write _, .failed f) => if f = .interrupted then none else some f
  | (.flush, .failed f) => some f
  | _ => none

theorem accepted_append (t s : Transcript) : accepted (t ++ s) = accepted t ++ accepted s :=
  List.flatMap_append

theorem flushes_append (t s : Transcript) : flushes (t ++ s) = flushes t + flushes s :=
  List.countP_append

theorem writes_append (t s : Transcript) : writes (t ++ s) = writes t + writes s :=
  List.countP_append

@[simp] theorem accepted_nil : accepted [] = [] := rfl

@[simp] theorem accepted_flush (a : Answer) (t : Transcript) : accepted ((.flush, a) :: t) = accepted t := by
  simp [accepted]

@[simp] theorem accepted_write (b : List UInt8) (n : Nat) (t : Transcript) :
    accepted ((.write b, .accepted n) :: t) = b.take n ++ accepted t := by
  simp [accepted]

@[simp] theorem accepted_failed (b : List UInt8) (f : WriteFault) (t : Transcript) :
    accepted ((.write b, .failed f) :: t) = accepted t := by
  simp [accepted]

@[simp] theorem flushes_nil : flushes [] = 0 := rfl

@[simp] theorem flushes_write (b : List UInt8) (a : Answer) (t : Transcript) :
    flushes ((.write b, a) :: t) = flushes t := by
  simp [flushes]

@[simp] theorem flushes_flushed (t : Transcript) : flushes ((.flush, .flushed) :: t) = flushes t + 1 := by
  simp [flushes]

@[simp] theorem flushes_failed (f : WriteFault) (t : Transcript) :
    flushes ((.flush, .failed f) :: t) = flushes t := by
  simp [flushes]

@[simp] theorem writes_nil : writes [] = 0 := rfl

@[simp] theorem writes_write (b : List UInt8) (a : Answer) (t : Transcript) :
    writes ((.write b, a) :: t) = writes t + 1 := by
  simp [writes]

@[simp] theorem writes_flush (a : Answer) (t : Transcript) : writes ((.flush, a) :: t) = writes t := by
  simp [writes]

end Transcript

open Transcript

theorem Performs.wire {w v : Writer} {t : Transcript} (h : Performs w t v) :
    v.wire = w.wire ++ accepted t ∧ v.writeCalls = w.writeCalls + writes t := by
  induction h with
  | nil w => simp
  | @cons w v u c a t ha _ ih =>
    obtain ⟨ih₁, ih₂⟩ := ih
    cases c with
    | flush =>
      have hv : v.wire = w.wire ∧ v.writeCalls = w.writeCalls := by
        simp only [Writer.answer] at ha
        split at ha <;> (cases ha; exact ⟨rfl, rfl⟩)
      rw [ih₁, ih₂, hv.1, hv.2, accepted_flush, writes_flush]
      exact ⟨rfl, rfl⟩
    | write b =>
      have hv : v.wire = w.wire ++ accepted [(.write b, a)] ∧ v.writeCalls = w.writeCalls + 1 := by
        simp only [Writer.answer] at ha
        split at ha
        · cases ha; simp
        · split at ha <;> (cases ha; simp)
      have ht : accepted ((.write b, a) :: t) = accepted [(.write b, a)] ++ accepted t :=
        accepted_append [_] t
      rw [ih₁, ih₂, hv.1, hv.2, ht, writes_write]
      exact ⟨by simp, by omega⟩

/-! ## The rules for a line -/

/-- Writing all bytes of a line: what is left is offered until nothing is left or
a call fails; an interrupted call is made again. -/
inductive Writing : List UInt8 → Transcript → Option WriteFault → Prop
  | done : Writing [] [] none
  | part {b : List UInt8} {n : Nat} {t : Transcript} {f : Option WriteFault} : b ≠ [] → 0 < n →
      Writing (b.drop n) t f → Writing b ((.write b, .accepted n) :: t) f
  | again {b : List UInt8} {t : Transcript} {f : Option WriteFault} : b ≠ [] →
      Writing b t f → Writing b ((.write b, .failed .interrupted) :: t) f
  | nothing {b : List UInt8} : b ≠ [] → Writing b [(.write b, .accepted 0)] (some .nothingWritten)
  | failed {b : List UInt8} {f : WriteFault} : b ≠ [] → f ≠ .interrupted →
      Writing b [(.write b, .failed f)] (some f)

namespace Writing

variable {b : List UInt8} {t : Transcript} {f : Option WriteFault} (h : Writing b t f)
include h

theorem flushes_eq : flushes t = 0 := by
  induction h with
  | done => rfl
  | part _ _ _ ih => rw [flushes_write, ih]
  | again _ _ ih => rw [flushes_write, ih]
  | nothing _ => simp
  | failed _ _ => simp

theorem accepted_of_done (hf : f = none) : accepted t = b := by
  induction h with
  | done => rfl
  | part _ _ _ ih => rw [accepted_write, ih hf, List.take_append_drop]
  | again _ _ ih => rw [accepted_failed, ih hf]
  | nothing _ => cases hf
  | failed _ _ => cases hf

theorem accepted_of_fault (hf : f ≠ none) : accepted t <+: b ∧ accepted t ≠ b := by
  induction h with
  | done => exact absurd rfl hf
  | @part b n t f _ _ _ ih =>
    obtain ⟨⟨r, hr⟩, hn⟩ := ih hf
    rw [accepted_write]
    refine ⟨⟨r, ?_⟩, fun he => hn ?_⟩
    · rw [List.append_assoc, hr, List.take_append_drop]
    · exact List.append_cancel_left (he.trans (List.take_append_drop n b).symm)
  | again _ _ ih => rw [accepted_failed]; exact ih hf
  | nothing hb => exact ⟨List.nil_prefix, hb.symm⟩
  | failed hb _ => exact ⟨List.nil_prefix, hb.symm⟩

theorem accepted_prefix : accepted t <+: b := by
  by_cases hf : f = none
  · exact (accepted_of_done h hf) ▸ List.prefix_rfl
  · exact (accepted_of_fault h hf).1

theorem offered {pre post : Transcript} {c : Call} {a : Answer} (ht : t = pre ++ (c, a) :: post) :
    ∃ o, c = .write o ∧ o ≠ [] ∧ accepted pre ++ o = b := by
  induction h generalizing pre with
  | done => simp at ht
  | @part b n t f hb _ _ ih =>
    rcases List.cons_eq_append_iff.mp ht with ⟨rfl, he⟩ | ⟨pre', rfl, he⟩
    · cases he; exact ⟨b, rfl, hb, rfl⟩
    · obtain ⟨o, ho, hne, hacc⟩ := ih he
      exact ⟨o, ho, hne, by rw [accepted_write, List.append_assoc, hacc, List.take_append_drop]⟩
  | @again b t f hb _ ih =>
    rcases List.cons_eq_append_iff.mp ht with ⟨rfl, he⟩ | ⟨pre', rfl, he⟩
    · cases he; exact ⟨b, rfl, hb, rfl⟩
    · obtain ⟨o, ho, hne, hacc⟩ := ih he
      exact ⟨o, ho, hne, by rw [accepted_failed, hacc]⟩
  | @nothing b hb =>
    rcases List.cons_eq_append_iff.mp ht with ⟨rfl, he⟩ | ⟨pre', rfl, he⟩
    · cases he; exact ⟨b, rfl, hb, rfl⟩
    · simp at he
  | @failed b f hb _ =>
    rcases List.cons_eq_append_iff.mp ht with ⟨rfl, he⟩ | ⟨pre', rfl, he⟩
    · cases he; exact ⟨b, rfl, hb, rfl⟩
    · simp at he

theorem offered_first {pre post : Transcript} {o : List UInt8} {a : Answer} (ls : List (List UInt8))
    (ht : t = pre ++ (.write o, a) :: post) :
    o ≠ [] ∧ flushes pre < (b :: ls).length ∧ ((b :: ls).take (flushes pre)).flatten <+: accepted pre ∧
      accepted pre ++ o = ((b :: ls).take (flushes pre + 1)).flatten := by
  obtain ⟨o', ho, hne, hacc⟩ := offered h ht
  cases ho
  have h0 : flushes pre = 0 := by
    have hf := flushes_eq h
    rw [ht, flushes_append] at hf; omega
  rw [h0]
  exact ⟨hne, Nat.succ_pos _, List.nil_prefix, by simpa using hacc⟩

theorem ne_flush {pre post : Transcript} {a : Answer} : t ≠ pre ++ (.flush, a) :: post := by
  intro ht
  obtain ⟨o, ho, -⟩ := offered h ht
  cases ho

theorem ends {pre post : Transcript} {x : Call × Answer} {g : WriteFault} (ht : t = pre ++ x :: post)
    (hx : fatal? x = some g) : post = [] ∧ f = some g := by
  induction h generalizing pre with
  | done => simp at ht
  | @part b n t f _ hn _ ih =>
    rcases List.cons_eq_append_iff.mp ht with ⟨rfl, he⟩ | ⟨pre', rfl, he⟩
    · cases he
      cases n with
      | zero => exact absurd hn (Nat.lt_irrefl 0)
      | succ n => cases hx
    · exact ih he
  | again _ _ ih =>
    rcases List.cons_eq_append_iff.mp ht with ⟨rfl, he⟩ | ⟨pre', rfl, he⟩
    · cases he; cases hx
    · exact ih he
  | nothing _ =>
    rcases List.cons_eq_append_iff.mp ht with ⟨rfl, he⟩ | ⟨pre', rfl, he⟩
    · cases he; cases hx; exact ⟨rfl, rfl⟩
    · simp at he
  | failed _ hi =>
    rcases List.cons_eq_append_iff.mp ht with ⟨rfl, he⟩ | ⟨pre', rfl, he⟩
    · cases he
      simp only [fatal?, hi, ite_false] at hx
      exact ⟨rfl, hx⟩
    · simp at he

theorem last {g : WriteFault} (hf : f = some g) : ∃ pre x, t = pre ++ [x] ∧ fatal? x = some g := by
  induction h with
  | done => cases hf
  | part _ _ _ ih =>
    obtain ⟨pre, x, rfl, hx⟩ := ih hf
    exact ⟨_ :: pre, x, rfl, hx⟩
  | again _ _ ih =>
    obtain ⟨pre, x, rfl, hx⟩ := ih hf
    exact ⟨_ :: pre, x, rfl, hx⟩
  | nothing _ => cases hf; exact ⟨[], _, rfl, rfl⟩
  | failed _ hi =>
    cases hf
    exact ⟨[], _, rfl, by simp only [fatal?, hi, ite_false]⟩

end Writing

/-! ## The rules for lines -/

/-- Sending lines, of which some were written and flushed: the first line that
cannot be written or flushed is the last. -/
inductive Sending : List (List UInt8) → Transcript → Nat → Option WriteFault → Prop
  | done : Sending [] [] 0 none
  | unwritten {l : List UInt8} {ls : List (List UInt8)} {t : Transcript} {f : WriteFault} :
      Writing l t (some f) → Sending (l :: ls) t 0 (some f)
  | unflushed {l : List UInt8} {ls : List (List UInt8)} {t : Transcript} {f : WriteFault} :
      Writing l t none → Sending (l :: ls) (t ++ [(.flush, .failed f)]) 0 (some f)
  | line {l : List UInt8} {ls : List (List UInt8)} {t u : Transcript} {k : Nat} {f : Option WriteFault} :
      Writing l t none → Sending ls u k f → Sending (l :: ls) (t ++ (.flush, .flushed) :: u) (k + 1) f

theorem append_cons_cases {α : Type} {t u pre post : List α} {x y : α} (h : t ++ y :: u = pre ++ x :: post) :
    (∃ q, t = pre ++ x :: q ∧ post = q ++ y :: u) ∨ (pre = t ∧ x = y ∧ post = u) ∨
      (∃ p, pre = t ++ y :: p ∧ u = p ++ x :: post) := by
  rcases List.append_eq_append_iff.mp h with ⟨as, rfl, he⟩ | ⟨bs, rfl, he⟩
  · rcases List.cons_eq_append_iff.mp he with ⟨rfl, hx⟩ | ⟨p, rfl, hu⟩
    · cases hx; exact .inr (.inl ⟨List.append_nil t, rfl, rfl⟩)
    · exact .inr (.inr ⟨p, rfl, hu⟩)
  · rcases List.cons_eq_append_iff.mp he with ⟨rfl, hx⟩ | ⟨q, rfl, hu⟩
    · cases hx; exact .inr (.inl ⟨(List.append_nil pre).symm, rfl, rfl⟩)
    · exact .inl ⟨q, rfl, hu⟩

namespace Sending

variable {ls : List (List UInt8)} {t : Transcript} {k : Nat} {f : Option WriteFault} (h : Sending ls t k f)
include h

theorem flushes_eq : flushes t = k := by
  induction h with
  | done => rfl
  | unwritten hw => exact hw.flushes_eq
  | unflushed hw => rw [flushes_append, hw.flushes_eq]; simp
  | line hw _ ih => rw [flushes_append, hw.flushes_eq, flushes_flushed, ih]; omega

theorem fault_eq_none_iff : f = none ↔ k = ls.length := by
  induction h with
  | done => simp
  | unwritten _ => simp
  | unflushed _ => simp
  | line _ _ ih => rw [ih]; simp

theorem accepted_of_done (hf : f = none) : accepted t = ls.flatten := by
  induction h with
  | done => rfl
  | unwritten _ => cases hf
  | unflushed _ => cases hf
  | line hw _ ih => rw [accepted_append, accepted_flush, hw.accepted_of_done rfl, ih hf, List.flatten_cons]

theorem accepted_prefix : accepted t <+: ls.flatten := by
  induction h with
  | done => exact List.prefix_rfl
  | unwritten hw => exact hw.accepted_prefix.trans (List.prefix_append _ _)
  | unflushed hw =>
    rw [accepted_append, accepted_flush, hw.accepted_of_done rfl, accepted_nil, List.append_nil]
    exact List.prefix_append _ _
  | line hw _ ih =>
    rw [accepted_append, accepted_flush, hw.accepted_of_done rfl, List.flatten_cons]
    exact (List.prefix_append_right_inj _).mpr ih

/-- **Order of the calls.** Before a call to write, as many lines were accepted
whole as were flushed, and the call offers the rest of the next one. -/
theorem offered {pre post : Transcript} {o : List UInt8} {a : Answer} (ht : t = pre ++ (.write o, a) :: post) :
    o ≠ [] ∧ flushes pre < ls.length ∧ (ls.take (flushes pre)).flatten <+: accepted pre ∧
      accepted pre ++ o = (ls.take (flushes pre + 1)).flatten := by
  induction h generalizing pre with
  | done => simp at ht
  | unwritten hw => exact hw.offered_first _ ht
  | unflushed hw =>
    rcases append_cons_cases ht with ⟨q, ht, -⟩ | ⟨-, hx, -⟩ | ⟨p, -, hu⟩
    · exact hw.offered_first _ ht
    · cases hx
    · simp at hu
  | line hw _ ih =>
    rcases append_cons_cases ht with ⟨q, ht, -⟩ | ⟨-, hx, -⟩ | ⟨p, rfl, hu⟩
    · exact hw.offered_first _ ht
    · cases hx
    · obtain ⟨hne, hlt, hpre, hacc⟩ := ih hu
      rw [flushes_append, hw.flushes_eq, flushes_flushed, accepted_append, accepted_flush, hw.accepted_of_done rfl,
        Nat.zero_add, List.take_succ_cons, List.take_succ_cons, List.flatten_cons, List.flatten_cons,
        List.append_assoc, hacc]
      exact ⟨hne, Nat.succ_lt_succ hlt, (List.prefix_append_right_inj _).mpr hpre, rfl⟩

theorem flushed {pre post : Transcript} {a : Answer} (ht : t = pre ++ (.flush, a) :: post) :
    flushes pre < ls.length ∧ accepted pre = (ls.take (flushes pre + 1)).flatten := by
  induction h generalizing pre with
  | done => simp at ht
  | unwritten hw => exact absurd ht hw.ne_flush
  | unflushed hw =>
    rcases append_cons_cases ht with ⟨q, ht, -⟩ | ⟨rfl, -, -⟩ | ⟨p, -, hu⟩
    · exact absurd ht hw.ne_flush
    · rw [hw.flushes_eq, hw.accepted_of_done rfl]
      exact ⟨Nat.succ_pos _, by simp⟩
    · simp at hu
  | line hw _ ih =>
    rcases append_cons_cases ht with ⟨q, ht, -⟩ | ⟨rfl, -, -⟩ | ⟨p, rfl, hu⟩
    · exact absurd ht hw.ne_flush
    · rw [hw.flushes_eq, hw.accepted_of_done rfl]
      exact ⟨Nat.succ_pos _, by simp⟩
    · obtain ⟨hlt, hacc⟩ := ih hu
      rw [flushes_append, hw.flushes_eq, flushes_flushed, accepted_append, accepted_flush, hw.accepted_of_done rfl,
        Nat.zero_add, List.take_succ_cons, List.flatten_cons, hacc]
      exact ⟨Nat.succ_lt_succ hlt, rfl⟩

/-- **Nothing comes after a fault**, and the fault is the one of the sending. -/
theorem ends {pre post : Transcript} {x : Call × Answer} {g : WriteFault} (ht : t = pre ++ x :: post)
    (hx : fatal? x = some g) : post = [] ∧ f = some g := by
  induction h generalizing pre with
  | done => simp at ht
  | unwritten hw => exact hw.ends ht hx
  | unflushed hw =>
    rcases append_cons_cases ht with ⟨q, ht, -⟩ | ⟨-, rfl, rfl⟩ | ⟨p, -, hu⟩
    · have hn := (hw.ends ht hx).2; cases hn
    · cases hx; exact ⟨rfl, rfl⟩
    · simp at hu
  | line hw _ ih =>
    rcases append_cons_cases ht with ⟨q, ht, -⟩ | ⟨-, rfl, -⟩ | ⟨p, rfl, hu⟩
    · have hn := (hw.ends ht hx).2; cases hn
    · cases hx
    · exact ih hu

theorem last {g : WriteFault} (hf : f = some g) : ∃ pre x, t = pre ++ [x] ∧ fatal? x = some g := by
  induction h with
  | done => cases hf
  | unwritten hw => exact hw.last hf
  | unflushed _ => cases hf; exact ⟨_, _, rfl, rfl⟩
  | @line _ _ t u _ _ _ _ ih =>
    obtain ⟨pre, x, rfl, hx⟩ := ih hf
    exact ⟨t ++ (.flush, .flushed) :: pre, x, by simp, hx⟩

end Sending

end Broadcast
