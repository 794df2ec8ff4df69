import Accumulator.Proofs.Text.Encoding
import Accumulator.Text.Lossy

/-! # Texts shown for bytes

Bytes outside UTF-8 are cut into parts of which at least one is outside UTF-8 too, and that part is
shown as a replacement character. So a text without this character is shown for its own bytes only.
-/

namespace Accumulator.Text

set_option autoImplicit false

theorem lossy_toByteArray (text : String) : lossy text.toByteArray = text := by
  rw [lossy, fromUTF8?_toByteArray]

theorem eq_toByteArray_of_fromUTF8? {bytes : ByteArray} {text : String}
    (h : String.fromUTF8? bytes = some text) : bytes = text.toByteArray := by
  rw [String.fromUTF8?, Option.dite_none_right_eq_some] at h
  obtain ⟨_, hText⟩ := h
  cases hText
  rfl

theorem toList_loop_eq (bytes : ByteArray) (index : Nat) (seen : List UInt8) :
    ByteArray.toList.loop bytes index seen = seen.reverse ++ bytes.data.toList.drop index := by
  fun_induction ByteArray.toList.loop bytes index seen with
  | case1 index seen hIndex ih =>
    have hByte : bytes.get! index = bytes.data.toList[index] := by
      rw [ByteArray.get!, getElem!_pos bytes.data index hIndex, Array.getElem_toList]
    rw [ih, hByte, List.drop_eq_getElem_cons hIndex, List.reverse_cons, List.append_assoc]
    rfl
  | case2 index seen hIndex =>
    have hNone : bytes.data.toList.drop index = [] :=
      List.drop_eq_nil_of_le (Nat.le_of_not_lt hIndex)
    rw [hNone, List.append_nil]

theorem toList_eq (bytes : ByteArray) : bytes.toList = bytes.data.toList :=
  toList_loop_eq bytes 0 []

/-- Nothing is lost where bytes are cut. -/
theorem flatten_cutCharacters {fuel : Nat} {bytes : List UInt8} (h : bytes.length ≤ fuel) :
    (cutCharacters fuel bytes).flatten = bytes := by
  induction fuel generalizing bytes with
  | zero =>
    rw [List.length_eq_zero_iff.mp (Nat.le_zero.mp h)]
    rfl
  | succ fuel ih =>
    cases bytes with
    | nil => rfl
    | cons byte rest =>
      simp only [List.length_cons] at h
      rw [cutCharacters, List.flatten_cons, ih (by rw [List.length_drop]; omega), List.cons_append,
        List.take_append_drop]

theorem exists_flatten_eq_encoded {parts : List (List UInt8)}
    (h : ∀ part ∈ parts, ∃ text, part = encoded text) :
    ∃ text, parts.flatten = encoded text := by
  induction parts with
  | nil => exact ⟨"", rfl⟩
  | cons part parts ih =>
    obtain ⟨front, rfl⟩ := h part List.mem_cons_self
    obtain ⟨back, hBack⟩ := ih fun other hMem => h other (List.mem_cons_of_mem _ hMem)
    exact ⟨front ++ back, by rw [List.flatten_cons, hBack, encoded_append]⟩

/-- If every part were a text, the bytes would be the texts one after the other. -/
theorem exists_part_outside {bytes : ByteArray} (h : String.fromUTF8? bytes = none) :
    ∃ part ∈ cutCharacters bytes.size bytes.toList, String.fromUTF8? part.toByteArray = none := by
  by_contra hAll
  push Not at hAll
  have hTexts : ∀ part ∈ cutCharacters bytes.size bytes.toList, ∃ text, part = encoded text := by
    intro part hMem
    obtain ⟨text, hText⟩ := Option.ne_none_iff_exists'.mp (hAll part hMem)
    refine ⟨text, ?_⟩
    rw [encoded, ← eq_toByteArray_of_fromUTF8? hText, List.toList_data_toByteArray]
  obtain ⟨text, hText⟩ := exists_flatten_eq_encoded hTexts
  have hSize : bytes.toList.length ≤ bytes.size := by
    rw [toList_eq]
    exact Nat.le_refl _
  rw [flatten_cutCharacters hSize, toList_eq] at hText
  have hBytes : bytes = text.toByteArray := ByteArray.ext (Array.toList_inj.mp hText)
  rw [hBytes, fromUTF8?_toByteArray] at h
  cases h

theorem replacement_mem_lossy {bytes : ByteArray} (h : String.fromUTF8? bytes = none) :
    '\uFFFD' ∈ (lossy bytes).toList := by
  obtain ⟨part, hMem, hPart⟩ := exists_part_outside h
  rw [lossy, h, String.toList_join, List.mem_flatMap]
  refine ⟨"\uFFFD", List.mem_map.mpr ⟨part, hMem, ?_⟩, by decide⟩
  rw [hPart, Option.getD_none]

theorem lossy_eq_iff {bytes : ByteArray} {text : String} (h : '\uFFFD' ∉ text.toList) :
    lossy bytes = text ↔ bytes = text.toByteArray := by
  constructor
  · rintro rfl
    cases hText : String.fromUTF8? bytes with
    | none => exact absurd (replacement_mem_lossy hText) h
    | some text =>
      rw [lossy, hText]
      exact eq_toByteArray_of_fromUTF8? hText
  · rintro rfl
    exact lossy_toByteArray text

end Accumulator.Text
