/-!
# The bytes of a text

A text is encoded character by character, and what was encoded can be read
back. The byte of the line feed stands for a line feed only, so cutting bytes
into lines is cutting the text.
-/

namespace Broadcast

theorem loop_toList (bs : ByteArray) (i : Nat) (r : List UInt8) :
    ByteArray.toList.loop bs i r = r.reverse ++ bs.data.toList.drop i := by
  fun_induction ByteArray.toList.loop bs i r with
  | case1 i r h ih =>
    have hi : i < bs.data.toList.length := by rw [Array.length_toList]; exact h
    have hb : bs.get! i = bs.data.toList[i] := by
      have hd : i < bs.data.size := h
      show bs.data[i]! = _
      rw [getElem!_pos bs.data i hd, Array.getElem_toList]
    rw [ih, List.drop_eq_getElem_cons hi, hb, List.reverse_cons, List.append_assoc]
    rfl
  | case2 i r h =>
    have hi : bs.data.toList.length ≤ i := by rw [Array.length_toList]; exact Nat.le_of_not_lt h
    rw [List.drop_eq_nil_of_le hi, List.append_nil]

theorem extract_of_size_le {bytes : ByteArray} {n : Nat} (h : bytes.size ≤ n) : bytes.extract 0 n = bytes := by
  apply ByteArray.ext
  rw [ByteArray.data_extract]
  exact Array.extract_eq_self_of_le h

theorem toList_toUTF8 (s : String) : s.toUTF8.toList = s.toList.flatMap String.utf8EncodeChar := by
  unfold ByteArray.toList
  rw [loop_toList, String.toUTF8_eq_toByteArray, ← String.utf8Encode_toList, List.utf8Encode,
    List.toList_data_toByteArray]
  rfl

theorem toList_toUTF8_append (s t : String) : (s ++ t).toUTF8.toList = s.toUTF8.toList ++ t.toUTF8.toList := by
  simp only [toList_toUTF8, String.toList_append, List.flatMap_append]

theorem fromUTF8?_toUTF8 (s : String) : String.fromUTF8? s.toUTF8 = some s := by
  have hs : s.toUTF8.IsValidUTF8 := s.isValidUTF8
  unfold String.fromUTF8?
  rw [dif_pos hs]
  rfl

theorem toList_toUTF8_injective {s t : String} (h : s.toUTF8.toList = t.toUTF8.toList) : s = t := by
  have hb : s.toUTF8 = t.toUTF8 := by
    have hd : ∀ b : String, b.toUTF8.toList.toByteArray = b.toUTF8 := by
      intro b
      rw [toList_toUTF8, String.toUTF8_eq_toByteArray, ← String.utf8Encode_toList]
      rfl
    rw [← hd s, ← hd t, h]
  have hs := fromUTF8?_toUTF8 s
  rw [hb, fromUTF8?_toUTF8 t] at hs
  exact (Option.some.inj hs).symm

theorem ofNat_ne_newline {n : Nat} (h : 11 ≤ n % 256) : (10 : UInt8) ≠ UInt8.ofNat n := by
  intro he
  have := congrArg UInt8.toNat he
  rw [UInt8.toNat_ofNat'] at this
  have h10 : (10 : UInt8).toNat = 10 := rfl
  omega

theorem eq_newline_of_mem {c : Char} (h : 10 ∈ String.utf8EncodeChar c) : c = '\n' := by
  unfold String.utf8EncodeChar at h; dsimp only at h
  split at h
  · rename_i hc
    have he := congrArg UInt8.toNat (List.mem_singleton.mp h)
    rw [UInt8.toNat_ofNat'] at he
    have h10 : (10 : UInt8).toNat = 10 := rfl
    have hv : c.val.toNat = 10 := by omega
    exact Char.ext (UInt32.toNat_inj.mp hv)
  · split at h
    · simp only [List.mem_cons, List.not_mem_nil, or_false] at h
      rcases h with h | h <;> exact absurd h (ofNat_ne_newline (by omega))
    · split at h
      · simp only [List.mem_cons, List.not_mem_nil, or_false] at h
        rcases h with h | h | h <;> exact absurd h (ofNat_ne_newline (by omega))
      · simp only [List.mem_cons, List.not_mem_nil, or_false] at h
        rcases h with h | h | h | h <;> exact absurd h (ofNat_ne_newline (by omega))

theorem newline_notMem_toUTF8 {s : String} (h : '\n' ∉ s.toList) : 10 ∉ s.toUTF8.toList := by
  rw [toList_toUTF8, List.mem_flatMap]
  rintro ⟨c, hc, hm⟩
  exact h (eq_newline_of_mem hm ▸ hc)

end Broadcast
