import Broadcast.Text.Fields

/-!
# What the fields and lines of a text are made of

A field has the characters of the text, but never the separator. So a line has
no line feed in it, nor has any part that is cut out of a line. A field is found
by going over the separators before it, and lines come off the text one by one.
-/

namespace Broadcast

theorem fields_cons_sep (sep : Char) (cs : List Char) : fields sep (sep :: cs) = [] :: fields sep cs := by
  simp [fields, cut]

theorem fields_cons {sep c : Char} (h : c ≠ sep) (cs : List Char) :
    fields sep (c :: cs) = (c :: (cut sep cs).1) :: (cut sep cs).2 := by
  simp [fields, cut, h]

theorem of_mem_fields {sep : Char} {cs f : List Char} (h : f ∈ fields sep cs) : sep ∉ f ∧ ∀ c ∈ f, c ∈ cs := by
  induction cs generalizing f with
  | nil =>
    obtain rfl := List.mem_singleton.mp h
    exact ⟨List.not_mem_nil, fun _ hc => hc⟩
  | cons d cs ih =>
    by_cases hd : d = sep
    · subst hd
      rw [fields_cons_sep] at h
      rcases List.mem_cons.mp h with rfl | h
      · exact ⟨List.not_mem_nil, fun _ hc => by cases hc⟩
      · exact ⟨(ih h).1, fun c hc => List.mem_cons_of_mem _ ((ih h).2 c hc)⟩
    · rw [fields_cons hd] at h
      rcases List.mem_cons.mp h with rfl | h
      · obtain ⟨hn, hm⟩ := ih List.mem_cons_self
        refine ⟨fun hs => ?_, fun c hc => ?_⟩
        · rcases List.mem_cons.mp hs with he | hs
          · exact hd he.symm
          · exact hn hs
        · rcases List.mem_cons.mp hc with rfl | hc
          · exact List.mem_cons_self
          · exact List.mem_cons_of_mem _ (hm c hc)
      · obtain ⟨hn, hm⟩ := ih (List.mem_cons_of_mem _ h)
        exact ⟨hn, fun c hc => List.mem_cons_of_mem _ (hm c hc)⟩

theorem mem_of_mem_field? {sep : Char} {n : Nat} {cs f : List Char} (h : field? sep n cs = some f) : ∀ c ∈ f, c ∈ cs :=
  (of_mem_fields (List.mem_of_getElem? h)).2

theorem fields_cases (sep : Char) (cs : List Char) :
    sep ∉ cs ∧ fields sep cs = [cs] ∨
      ∃ a rest, sep ∉ a ∧ cs = a ++ sep :: rest ∧ fields sep cs = a :: fields sep rest := by
  by_cases hm : sep ∈ cs
  · obtain ⟨a, rest, rfl, ha⟩ := List.eq_append_cons_of_mem hm
    refine .inr ⟨a, rest, ha, rfl, ?_⟩
    rw [fields_append_sep, fields_of_not_mem ha]
    rfl
  · exact .inl ⟨hm, fields_of_not_mem hm⟩

theorem field?_zero_iff {sep : Char} {cs f : List Char} :
    field? sep 0 cs = some f ↔ sep ∉ f ∧ (cs = f ∨ ∃ rest, cs = f ++ sep :: rest) := by
  unfold field?
  constructor
  · intro h
    rcases fields_cases sep cs with ⟨hn, hf⟩ | ⟨a, rest, ha, rfl, hf⟩
    · rw [hf] at h
      cases h
      exact ⟨hn, .inl rfl⟩
    · rw [hf] at h
      cases h
      exact ⟨ha, .inr ⟨rest, rfl⟩⟩
  · rintro ⟨hn, rfl | ⟨rest, rfl⟩⟩
    · rw [fields_of_not_mem hn]
      rfl
    · rw [fields_append_sep, fields_of_not_mem hn]
      rfl

theorem field?_succ_iff {sep : Char} {n : Nat} {cs f : List Char} :
    field? sep (n + 1) cs = some f ↔ ∃ a rest, sep ∉ a ∧ cs = a ++ sep :: rest ∧ field? sep n rest = some f := by
  unfold field?
  constructor
  · intro h
    rcases fields_cases sep cs with ⟨-, hf⟩ | ⟨a, rest, ha, hcs, hf⟩
    · rw [hf] at h
      cases h
    · rw [hf] at h
      exact ⟨a, rest, ha, hcs, h⟩
  · rintro ⟨a, rest, ha, rfl, h⟩
    rw [fields_append_sep, fields_of_not_mem ha]
    exact h

theorem occurs_iff {part cs : List Char} : occurs part cs = true ↔ part <:+: cs := by
  induction cs with
  | nil => rw [occurs, List.isEmpty_iff, List.infix_nil]
  | cons c cs ih => rw [occurs, Bool.or_eq_true, List.isPrefixOf_iff_prefix, ih, List.infix_cons_iff]

theorem mem_of_mem_dropReturn {line : List Char} {c : Char} (h : c ∈ dropReturn line) : c ∈ line := by
  unfold dropReturn at h
  split at h
  · exact List.dropLast_subset line h
  · exact h

theorem notMem_of_mem_endLines {fs : List (List Char)} {line : List Char} {c : Char} (hf : ∀ f ∈ fs, c ∉ f)
    (h : line ∈ endLines fs) : c ∉ line := by
  induction fs with
  | nil => cases h
  | cons first rest ih =>
    cases rest with
    | nil =>
      simp only [endLines] at h
      split at h
      · cases h
      · exact List.mem_singleton.mp h ▸ hf first List.mem_cons_self
    | cons next rest =>
      rcases List.mem_cons.mp h with rfl | h
      · exact fun hm => hf first List.mem_cons_self (mem_of_mem_dropReturn hm)
      · exact ih (fun f hm => hf f (List.mem_cons_of_mem _ hm)) h

theorem dropReturn_append_return (line : List Char) : dropReturn (line ++ ['\r']) = line := by
  simp [dropReturn]

theorem dropReturn_of_getLast? {line : List Char} (h : line.getLast? ≠ some '\r') : dropReturn line = line := if_neg h

theorem isInfix_dropReturn (line : List Char) : dropReturn line <:+: line := by
  unfold dropReturn
  split
  · exact line.dropLast_prefix.isInfix
  · exact List.infix_refl line

theorem lines_append_newline {line : List Char} (h : '\n' ∉ line) (rest : List Char) :
    lines (line ++ '\n' :: rest) = dropReturn line :: lines rest := by
  unfold lines
  rw [fields_append_sep, fields_of_not_mem h]
  rfl

theorem lines_append_returnFeed {line : List Char} (h : '\n' ∉ line) (rest : List Char) :
    lines (line ++ '\r' :: '\n' :: rest) = line :: lines rest := by
  have hline : '\n' ∉ line ++ ['\r'] := by simp [h]
  have hl := lines_append_newline hline rest
  rwa [dropReturn_append_return, List.append_assoc] at hl

theorem lines_of_notMem {line : List Char} (h : '\n' ∉ line) : lines line = if line.isEmpty then [] else [line] := by
  unfold lines
  rw [fields_of_not_mem h]
  rfl

theorem newline_notMem_of_mem_lines {cs line : List Char} (h : line ∈ lines cs) : '\n' ∉ line :=
  notMem_of_mem_endLines (fun _ hf => (of_mem_fields hf).1) h

end Broadcast
