import Accumulator.Device.Input
import Accumulator.Proofs.Text.Runs
import Mathlib.Algebra.BigOperators.Group.List.Basic

/-! # Encoded texts

The bytes of a text are those of its characters in order. The byte of a line feed stands for
nothing else, so the first line of the bytes is the first line of the text.
-/

namespace Accumulator.Text

set_option autoImplicit false

/-- The bytes of a text. -/
def encoded (text : String) : List UInt8 :=
  text.toByteArray.data.toList

theorem encoded_eq_flatMap (text : String) :
    encoded text = text.toList.flatMap String.utf8EncodeChar := by
  rw [encoded, ← String.utf8Encode_toList, List.utf8Encode, List.data_toByteArray]

theorem encoded_append (left right : String) :
    encoded (left ++ right) = encoded left ++ encoded right := by
  simp only [encoded_eq_flatMap, String.toList_append, List.flatMap_append]

theorem encoded_eq_nil_iff {text : String} : encoded text = [] ↔ text = "" := by
  rw [encoded_eq_flatMap, List.flatMap_eq_nil_iff]
  constructor
  · intro h
    rw [← String.toList_eq_nil_iff, List.eq_nil_iff_forall_not_mem]
    intro c hMem
    exact String.utf8EncodeChar_ne_nil (h c hMem)
  · rintro rfl
    simp

theorem toByteArray_encoded (text : String) : (encoded text).toByteArray = text.toByteArray := by
  apply ByteArray.ext
  rw [List.data_toByteArray, encoded, Array.toArray_toList]

theorem length_le_utf8ByteSize (text : String) : text.length ≤ text.utf8ByteSize := by
  have hSize : text.utf8ByteSize = (text.toList.flatMap String.utf8EncodeChar).length :=
    congrArg List.length (encoded_eq_flatMap text)
  have hBytes : ∀ size ∈ text.toList.map Char.utf8Size, 1 ≤ size := by
    intro size hSize
    obtain ⟨c, _, rfl⟩ := List.mem_map.mp hSize
    exact c.utf8Size_pos
  have hLength := List.length_le_sum_of_one_le _ hBytes
  rw [hSize, List.length_flatMap, ← String.length_toList]
  simpa using hLength

theorem fromUTF8?_toByteArray (text : String) : String.fromUTF8? text.toByteArray = some text := by
  rw [String.fromUTF8?, dif_pos text.isValidUTF8]
  rfl

/-- The bytes of other characters have the high bit set or are their own codes. -/
theorem eq_lineFeed_of_mem_utf8EncodeChar {c : Char}
    (h : Chunk.lineFeed ∈ String.utf8EncodeChar c) : c = '\n' := by
  have hFeed : ∀ n : Nat, Chunk.lineFeed = UInt8.ofNat n → n % 256 = 10 := by
    intro n hEq
    have hNat := congrArg UInt8.toNat hEq
    rw [UInt8.toNat_ofNat'] at hNat
    exact hNat.symm
  have hValue : c.val.toNat = 10 := by
    revert h
    fun_cases String.utf8EncodeChar c
    all_goals
      intro h
      simp only [List.mem_cons, List.not_mem_nil, or_false] at h
    · have hSingle := hFeed _ h
      omega
    · rcases h with h | h <;> have hByte := hFeed _ h <;> omega
    · rcases h with h | h | h <;> have hByte := hFeed _ h <;> omega
    · rcases h with h | h | h | h <;> have hByte := hFeed _ h <;> omega
  apply Char.ext
  apply UInt32.toNat_inj.mp
  exact hValue

end Accumulator.Text
