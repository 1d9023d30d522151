/-!
# Fields and lines of a text

A text is cut at every occurrence of a separator, so its fields joined by the
separator give it back. Lines are the fields between line feeds: a line loses
one carriage return that stands right before its line feed, and the text after
the last line feed is a line only when it is not empty.
-/

namespace Broadcast

def cut (sep : Char) : List Char → List Char × List (List Char)
  | [] => ([], [])
  | c :: cs =>
    if c = sep then ([], (cut sep cs).1 :: (cut sep cs).2)
    else (c :: (cut sep cs).1, (cut sep cs).2)

def fields (sep : Char) (cs : List Char) : List (List Char) :=
  (cut sep cs).1 :: (cut sep cs).2

def field? (sep : Char) (n : Nat) (cs : List Char) : Option (List Char) :=
  (fields sep cs)[n]?

def dropReturn (line : List Char) : List Char :=
  if line.getLast? = some '\r' then line.dropLast else line

def endLines : List (List Char) → List (List Char)
  | [] => []
  | [last] => if last.isEmpty then [] else [last]
  | line :: next :: rest => dropReturn line :: endLines (next :: rest)

def lines (cs : List Char) : List (List Char) :=
  endLines (fields '\n' cs)

def occurs (part : List Char) : List Char → Bool
  | [] => part.isEmpty
  | c :: cs => part.isPrefixOf (c :: cs) || occurs part cs

def truncated (max : Nat) (s : String) : String :=
  String.ofList (s.toList.take max)

theorem cut_append_sep (sep : Char) (a b : List Char) :
    cut sep (a ++ sep :: b) = ((cut sep a).1, (cut sep a).2 ++ fields sep b) := by
  induction a with
  | nil => simp [cut, fields]
  | cons c a ih => by_cases h : c = sep <;> simp [cut, h, ih]

theorem fields_append_sep (sep : Char) (a b : List Char) :
    fields sep (a ++ sep :: b) = fields sep a ++ fields sep b := by
  simp [fields, cut_append_sep]

theorem fields_of_not_mem {sep : Char} {a : List Char} (h : sep ∉ a) : fields sep a = [a] := by
  induction a with
  | nil => rfl
  | cons c a ih =>
    simp only [List.mem_cons, not_or] at h
    have := ih h.2
    simp only [fields, List.cons.injEq] at this
    simp [fields, cut, Ne.symm h.1, this.1, this.2]

theorem length_truncated_le (max : Nat) (s : String) : (truncated max s).length ≤ max := by
  simp only [truncated, String.length_ofList, List.length_take]
  omega

end Broadcast
