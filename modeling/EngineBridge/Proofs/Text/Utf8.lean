import EngineBridge.Text.Utf8

/-! The bytes of a text are the text again, and bytes that are read as a text are those of that text. -/

namespace EngineBridge.Utf8

theorem toList_loop (b : ByteArray) (i : Nat) (r : List UInt8) :
    ByteArray.toList.loop b i r = r.reverse ++ b.data.toList.drop i := by
  rw [ByteArray.toList.loop]
  split
  · next h =>
    have hi : i < b.data.toList.length := h
    have hget : b.get! i = b.data.toList[i] := by
      show b.data[i]! = b.data.toList[i]
      rw [getElem!_pos b.data i h, Array.getElem_toList]
    rw [toList_loop b (i + 1) (b.get! i :: r), List.drop_eq_getElem_cons hi, hget]
    simp
  · next h =>
    have hi : b.data.toList.length ≤ i := Nat.le_of_not_lt h
    rw [List.drop_eq_nil_of_le hi, List.append_nil]
termination_by b.size - i

theorem toList_eq (b : ByteArray) : b.toList = b.data.toList := toList_loop b 0 []

theorem array_encode (s : String) : (⟨(encode s).toArray⟩ : ByteArray) = s.toUTF8 := by
  unfold encode
  rw [toList_eq, Array.toArray_toList]

theorem length_encode (s : String) : (encode s).length = s.utf8ByteSize := by
  unfold encode
  rw [toList_eq]
  rfl

theorem fromUTF8?_toUTF8 (s : String) : String.fromUTF8? s.toUTF8 = some s := by
  unfold String.fromUTF8?
  rw [dif_pos (show s.toUTF8.IsValidUTF8 from s.isValidUTF8)]
  rfl

theorem toUTF8_of_fromUTF8? {b : ByteArray} {s : String} (h : String.fromUTF8? b = some s) : s.toUTF8 = b := by
  unfold String.fromUTF8? at h
  split at h
  · cases h
    rfl
  · cases h

theorem decode_encode (s : String) : decode (encode s) = .ok s := by
  unfold decode
  rw [array_encode, fromUTF8?_toUTF8]

theorem encode_of_decode {bytes : List UInt8} {s : String} (h : decode bytes = .ok s) : encode s = bytes := by
  unfold decode at h
  split at h
  · next text htext =>
    cases h
    unfold encode
    rw [toUTF8_of_fromUTF8? htext, toList_eq]
  · cases h

end EngineBridge.Utf8
