import Broadcast.Proofs.Text.Pieces

/-!
# What the lines of a text are

A line goes up to its line feed, and one carriage return right before the line feed
belongs to the end of the line, not to the line. What is behind the last line feed
is a line too, unless there is nothing. This says what the lines are without cutting
the text into fields, and gives an induction over them.
-/

namespace Broadcast

inductive LinesOf : List Char → List (List Char) → Prop
  | nil : LinesOf [] []
  | last {line : List Char} : line ≠ [] → '\n' ∉ line → LinesOf line [line]
  | feed {line rest : List Char} {ls : List (List Char)} : '\n' ∉ line → line.getLast? ≠ some '\r' → LinesOf rest ls →
      LinesOf (line ++ '\n' :: rest) (line :: ls)
  | returnFeed {line rest : List Char} {ls : List (List Char)} : '\n' ∉ line → LinesOf rest ls →
      LinesOf (line ++ '\r' :: '\n' :: rest) (line :: ls)

theorem LinesOf.lines_eq {cs : List Char} {ls : List (List Char)} (h : LinesOf cs ls) : lines cs = ls := by
  induction h with
  | nil => rfl
  | last hne hn => rw [lines_of_notMem hn, if_neg (by simpa using hne)]
  | feed hn hr _ ih => rw [lines_append_newline hn, dropReturn_of_getLast? hr, ih]
  | returnFeed hn _ ih => rw [lines_append_returnFeed hn, ih]

theorem linesOf_lines (cs : List Char) : LinesOf cs (lines cs) := by
  rcases fields_cases '\n' cs with ⟨hn, -⟩ | ⟨line, rest, hn, hcs, -⟩
  · rw [lines_of_notMem hn]
    cases cs with
    | nil => exact .nil
    | cons c cs => exact .last (List.cons_ne_nil c cs) hn
  · have hshort : rest.length < cs.length := by rw [hcs, List.length_append, List.length_cons]; omega
    have hrest : LinesOf rest (lines rest) := linesOf_lines rest
    rw [hcs, lines_append_newline hn]
    by_cases hr : line.getLast? = some '\r'
    · obtain ⟨short, rfl⟩ := List.getLast?_eq_some_iff.mp hr
      rw [dropReturn_append_return, List.append_assoc]
      exact .returnFeed (fun hm => hn (List.mem_append_left _ hm)) hrest
    · rw [dropReturn_of_getLast? hr]
      exact .feed hn hr hrest
termination_by cs.length

/-! ## Two texts with a line feed between them -/

theorem getLast?_behind {line rest : List Char} {c : Char} (h : (line ++ '\n' :: rest).getLast? ≠ some c) :
    rest.getLast? ≠ some c := by
  intro hr
  refine h ?_
  rw [List.getLast?_append, List.getLast?_cons, hr]
  rfl

theorem LinesOf.append {a b : List Char} {ls ms : List (List Char)} (ha : LinesOf a ls) (hr : a.getLast? ≠ some '\r')
    (hb : LinesOf b ms) : LinesOf (a ++ '\n' :: b) (ls ++ ms) ∨ LinesOf (a ++ '\n' :: b) (ls ++ [] :: ms) := by
  induction ha with
  | nil => exact .inr (.feed List.not_mem_nil (by simp) hb)
  | last _ hn => exact .inl (.feed hn hr hb)
  | feed hn hline _ ih =>
    rw [List.append_assoc]
    exact (ih (getLast?_behind hr)).imp (.feed hn hline) (.feed hn hline)
  | @returnFeed line rest ls hn _ ih =>
    have hline : ((line ++ ['\r']) ++ '\n' :: rest).getLast? ≠ some '\r' := by rwa [List.append_assoc]
    have hrest : rest.getLast? ≠ some '\r' := getLast?_behind hline
    rw [List.append_assoc]
    exact (ih hrest).imp (.returnFeed hn) (.returnFeed hn)

/-! ## Other ends of lines -/

def withReturns (cs : List Char) : List Char := cs.flatMap fun c => if c = '\n' then ['\r', '\n'] else [c]

theorem withReturns_of_notMem {cs : List Char} (h : '\n' ∉ cs) : withReturns cs = cs := by
  induction cs with
  | nil => rfl
  | cons c cs ih =>
    simp only [List.mem_cons, not_or] at h
    have hc : withReturns (c :: cs) = c :: withReturns cs := by simp [withReturns, Ne.symm h.1]
    rw [hc, ih h.2]

theorem withReturns_line {line : List Char} (h : '\n' ∉ line) (rest : List Char) :
    withReturns (line ++ '\n' :: rest) = line ++ '\r' :: '\n' :: withReturns rest := by
  have happend : withReturns (line ++ '\n' :: rest) = withReturns line ++ withReturns ('\n' :: rest) :=
    List.flatMap_append
  rw [happend, withReturns_of_notMem h]
  rfl

theorem LinesOf.withReturns {cs : List Char} {ls : List (List Char)} (h : LinesOf cs ls) (hr : '\r' ∉ cs) :
    LinesOf (withReturns cs) ls := by
  induction h with
  | nil => exact .nil
  | last hne hn =>
    rw [withReturns_of_notMem hn]
    exact .last hne hn
  | feed hn _ _ ih =>
    rw [withReturns_line hn]
    exact .returnFeed hn (ih fun hm => hr (by simp [hm]))
  | returnFeed => simp at hr

end Broadcast
