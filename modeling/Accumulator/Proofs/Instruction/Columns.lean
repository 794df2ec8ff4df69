import Accumulator.Proofs.Instruction.Rendering

/-! # The column of the operation

A rendered line shows the label, spaces, the operation and the operand. The lengths of the other
parts fix the number of spaces, so the column of the operation is well defined whatever the label
looks like. A label column of a given width takes that many characters, unless the label has as many
bytes; then it takes one character more than the label.
-/

namespace Accumulator

set_option autoImplicit false

theorem Text.length_spaces (count : Nat) : (Text.spaces count).length = count := by
  rw [Text.spaces, String.length_ofList, List.length_replicate]

namespace Instruction

/-- The row shows the instruction behind some text in front, and its operation starts behind this
many characters. -/
def OperationAt (instruction : Instruction) (front row : String) (column : Nat) : Prop :=
  ∃ gap, row = front ++ instruction.name ++ Text.spaces gap ++ instruction.opcode.mnemonic ++
      instruction.operandText ∧
    column = (front ++ instruction.name ++ Text.spaces gap).length

variable {instruction : Instruction} {label : Option String} {width : Nat} {front row : String}

theorem OperationAt.length_eq {column : Nat} (h : instruction.OperationAt front row column) :
    row.length =
      column + instruction.opcode.mnemonic.length + instruction.operandText.length := by
  obtain ⟨gap, rfl, rfl⟩ := h
  rw [String.length_append, String.length_append _ instruction.opcode.mnemonic]

theorem OperationAt.unique {column other : Nat} (h : instruction.OperationAt front row column)
    (hOther : instruction.OperationAt front row other) : other = column := by
  have hLength := h.length_eq
  have hOtherLength := hOther.length_eq
  omega

/-- The number of spaces between a label and the operation. -/
def gap (label : Option String) (width : Nat) : Nat :=
  match label with
  | some label => if width ≤ label.utf8ByteSize then 1 else width - label.length
  | none => width

/-- The number of characters in front of the operation. -/
def columnLength (label : Option String) (width : Nat) : Nat :=
  match label with
  | some label => if width ≤ label.utf8ByteSize then label.length + 1 else width
  | none => width

theorem eq_of_labelColumn {column : String} (h : labelColumn label width = .ok column) :
    column = label.getD "" ++ Text.spaces (gap label width) := by
  cases label with
  | none =>
    simp only [labelColumn] at h
    split at h
    · cases h
      exact (String.empty_append).symm
    · cases h
  | some label =>
    simp only [labelColumn] at h
    simp only [gap, Option.getD_some]
    split at h
    · rename_i hLong
      cases h
      rw [if_pos hLong]
      rfl
    · rename_i hShort
      rw [if_neg hShort]
      split at h
      · cases h
        rfl
      · cases h

theorem length_getD_append_spaces (label : Option String) (width : Nat) :
    (label.getD "" ++ Text.spaces (gap label width)).length = columnLength label width := by
  rw [String.length_append, Text.length_spaces]
  cases label with
  | none => exact Nat.zero_add width
  | some label =>
    have hLength := Text.length_le_utf8ByteSize label
    simp only [gap, columnLength, Option.getD_some]
    split <;> omega

theorem operationAt_of_render (hRow : instruction.render width = .ok row) (front : String) :
    instruction.OperationAt front (front ++ row)
      (front.length + columnLength instruction.label width) := by
  obtain ⟨column, hColumn, rfl⟩ := render_eq_ok_iff.mp hRow
  rw [eq_of_labelColumn hColumn]
  refine ⟨gap instruction.label width, ?_, ?_⟩
  · rw [← String.append_assoc, ← String.append_assoc, ← String.append_assoc]
    rfl
  · rw [← length_getD_append_spaces, String.append_assoc, String.length_append front]
    rfl

end Instruction

end Accumulator
