import PairLisp.Proofs.Text.Lines

/-! # Lines of bytes

The bytes of a text have the lines of the text: a byte below 128 stands for the character with its
number and is part of no other.
-/

namespace PairLisp.Text

theorem utf8ByteSize_cons (c : Char) (cs : List Char) :
    (String.ofList (c :: cs)).utf8ByteSize = c.utf8Size + (String.ofList cs).utf8ByteSize := by
  rw [String.ofList_cons, String.utf8ByteSize_append, String.utf8ByteSize_singleton]

theorem toList_loop (bytes : ByteArray) (i : Nat) (done : List UInt8) :
    ByteArray.toList.loop bytes i done = done.reverse ++ bytes.data.toList.drop i := by
  fun_induction ByteArray.toList.loop bytes i done with
  | case1 i done h ih =>
    have hi : i < bytes.data.toList.length := by simpa using h
    rw [ih, List.drop_eq_getElem_cons hi]
    simp [ByteArray.get!, h]
  | case2 i done h =>
    rw [List.drop_eq_nil_of_le (by simpa using Nat.le_of_not_lt h)]
    simp

theorem toList_toUTF8 (text : String) :
    text.toUTF8.toList = text.toList.flatMap String.utf8EncodeChar := by
  rw [ByteArray.toList, toList_loop, String.toUTF8, ← String.utf8Encode_toList, List.utf8Encode,
    List.toList_data_toByteArray, List.reverse_nil, List.nil_append, List.drop_zero]

theorem fromUTF8?_toByteArray (text : String) : String.fromUTF8? text.toByteArray = some text := by
  rw [String.fromUTF8?, dif_pos text.isValidUTF8]
  rfl

/-- Only the first of a character's bytes can be below 128, and it is so if it is the only one. -/
theorem toNat_of_mem_utf8EncodeChar {c : Char} {b : UInt8} (h : b ∈ String.utf8EncodeChar c)
    (hb : b.toNat < 128) : c.toNat = b.toNat := by
  have hbyte {n : Nat} (hn : b = UInt8.ofNat n) : b.toNat = n % 256 := by
    rw [hn, UInt8.toNat_ofNat']
  simp only [String.utf8EncodeChar] at h
  change c.val.toNat = _
  split at h
  · have := hbyte (List.mem_singleton.1 h)
    omega
  · split at h
    · simp only [List.mem_cons, List.not_mem_nil, or_false] at h
      rcases h with h | h <;> have := hbyte h <;> omega
    · split at h
      · simp only [List.mem_cons, List.not_mem_nil, or_false] at h
        rcases h with h | h | h <;> have := hbyte h <;> omega
      · simp only [List.mem_cons, List.not_mem_nil, or_false] at h
        rcases h with h | h | h | h <;> have := hbyte h <;> omega

theorem utf8_keepsBreaks : KeepsBreaks '\n' '\r' (10 : UInt8) 13 String.utf8EncodeChar where
  code_feed := by decide
  code_ret := by decide
  ne_nil _ := String.utf8EncodeChar_ne_nil
  eq_feed c h := Char.toNat_inj.1 (toNat_of_mem_utf8EncodeChar h (by decide))
  eq_ret c h := Char.toNat_inj.1 (toNat_of_mem_utf8EncodeChar h (by decide))

/-- The lines of a text's bytes are the bytes of its lines. -/
theorem fromUTF8?_byteLines (text : String) :
    (byteLines text.toUTF8).map String.fromUTF8? = (lines text).map some := by
  have hlines : linesFrom 10 13 #[] (text.toList.flatMap String.utf8EncodeChar) =
      (linesFrom '\n' '\r' #[] text.toList).map (·.flatMap String.utf8EncodeChar) :=
    utf8_keepsBreaks.linesFrom_flatMap [] text.toList
  rw [byteLines, toList_toUTF8, hlines, lines]
  simp only [List.map_map]
  refine List.map_congr_left fun line _ => ?_
  have hbytes : (⟨(line.flatMap String.utf8EncodeChar).toArray⟩ : ByteArray) =
      (String.ofList line).toByteArray := by
    apply ByteArray.ext
    apply Array.toList_inj.1
    rw [String.toByteArray_ofList, List.utf8Encode, List.toList_data_toByteArray]
  exact (congrArg String.fromUTF8? hbytes).trans (fromUTF8?_toByteArray _)

end PairLisp.Text
