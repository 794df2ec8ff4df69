import Accumulator.Proofs.Instruction.Grammar
import Accumulator.Proofs.Text.Encoding

/-! # Rendered lines

An instruction is rendered at every column width, unless its label would have to be filled up beyond
what a formatter fills. A label is always followed by a space, and no field has a gap in it. So the
fields of a rendered line are those of its instruction, and the line is read as that instruction.
-/

namespace Accumulator

set_option autoImplicit false

theorem Text.fields_spaces_append (count : Nat) (rest : String) :
    Text.fields (Text.spaces count ++ rest) = Text.fields rest := by
  induction count with
  | zero =>
    have hNone : Text.spaces 0 ++ rest = rest := String.toList_inj.mp (by simp [Text.spaces])
    rw [hNone]
  | succ count ih =>
    have hText : (Text.spaces (count + 1) ++ rest).toList =
        ' ' :: (Text.spaces count ++ rest).toList := by
      simp [Text.spaces, List.replicate_succ]
    rw [← ih]
    exact Text.runs_of_cons_separator hText (by decide)

theorem Opcode.isRun_mnemonic (opcode : Opcode) : Text.IsRun Text.isGap opcode.mnemonic := by
  have hFree : opcode.mnemonic.toList.all (fun c => !Text.isGap c) = true := by
    cases opcode <;> decide
  constructor
  · cases opcode <;> decide
  · simpa using hFree

namespace Instruction

variable {line row column : String} {instruction : Instruction} {label : Option String}
  {width : Nat} {crash : Crash}

/-- A column of this width can neither hold the label as it is nor be filled up. -/
def Overwide (width : Nat) : Option String → Prop
  | some label => label.utf8ByteSize < width ∧ maxFill < width
  | none => maxSpaces < width

theorem not_overwide_of_le (h : width ≤ maxFill) (label : Option String) :
    ¬ Overwide width label := by
  cases label with
  | some label => exact fun hWide => Nat.not_lt_of_le h hWide.2
  | none =>
    have hLess : maxFill ≤ maxSpaces := by decide
    exact Nat.not_lt_of_le (Nat.le_trans h hLess)

theorem labelColumn_eq_error_iff :
    labelColumn label width = .error crash ↔ Overwide width label ∧ crash = ⟨width⟩ := by
  cases label with
  | some label =>
    simp only [labelColumn, Overwide]
    split
    · rename_i hLong
      exact iff_of_false (by simp) fun h => Nat.not_lt_of_le hLong h.1.1
    · rename_i hShort
      split
      · rename_i hFills
        exact iff_of_false (by simp) fun h => Nat.not_lt_of_le hFills h.1.2
      · rename_i hWide
        simp only [Except.error.injEq, eq_comm]
        exact (and_iff_right ⟨Nat.lt_of_not_le hShort, Nat.lt_of_not_le hWide⟩).symm
  | none =>
    simp only [labelColumn, Overwide]
    split
    · rename_i hFits
      exact iff_of_false (by simp) fun h => Nat.not_lt_of_le hFits h.1
    · rename_i hWide
      simp only [Except.error.injEq, eq_comm]
      exact (and_iff_right (Nat.lt_of_not_le hWide)).symm

theorem render_eq_ok_iff {row : String} :
    instruction.render width = .ok row ↔ ∃ column,
      labelColumn instruction.label width = .ok column ∧
        row = column ++ instruction.opcode.mnemonic ++ instruction.operandText := by
  unfold render
  cases labelColumn instruction.label width with
  | error crash => exact iff_of_false nofun nofun
  | ok column => simp [bind, Except.bind, pure, Except.pure, eq_comm]

theorem render_eq_error_iff :
    instruction.render width = .error crash ↔
      Overwide width instruction.label ∧ crash = ⟨width⟩ := by
  rw [← labelColumn_eq_error_iff, render]
  cases labelColumn instruction.label width <;> simp [bind, Except.bind, pure, Except.pure]

/-- The label column is counted in bytes but filled up in characters, so that a label that is
shorter than the column always has room for a space. -/
theorem exists_eq_of_labelColumn {label : String}
    (h : labelColumn (some label) width = .ok column) :
    ∃ count, column = label ++ " " ++ Text.spaces count := by
  simp only [labelColumn] at h
  split at h
  · cases h
    exact ⟨0, String.toList_inj.mp (by simp [Text.spaces])⟩
  · rename_i hShort
    split at h
    · cases h
      have hLength := Text.length_le_utf8ByteSize label
      obtain ⟨count, hCount⟩ := Nat.exists_eq_add_one_of_ne_zero
        (show width - label.length ≠ 0 by omega)
      refine ⟨count, String.toList_inj.mp ?_⟩
      simp [hCount, Text.spaces, List.replicate_succ]
    · cases h

theorem fields_labelColumn (hColumn : labelColumn label width = .ok column)
    (hLabel : ∀ name ∈ label, Text.IsRun Text.isGap name) (rest : String) :
    Text.fields (column ++ rest) = label.toList ++ Text.fields rest := by
  cases label with
  | none =>
    simp only [labelColumn] at hColumn
    split at hColumn
    · cases hColumn
      exact Text.fields_spaces_append width rest
    · cases hColumn
  | some name =>
    obtain ⟨count, rfl⟩ := exists_eq_of_labelColumn hColumn
    have hText : (name ++ " " ++ Text.spaces count ++ rest).toList =
        name.toList ++ ' ' :: (Text.spaces count ++ rest).toList := by
      simp
    have hSplit := Text.runs_append (hLabel name rfl) hText (by decide)
    have hRest := Text.fields_spaces_append count rest
    rw [Text.fields, hSplit]
    exact congrArg (name :: ·) hRest

theorem fields_render (hRow : instruction.render width = .ok row)
    (hLabel : ∀ name ∈ instruction.label, Text.IsRun Text.isGap name)
    (hOperand : ∀ operand ∈ instruction.operand, Text.IsRun Text.isGap operand) :
    Text.fields row =
      instruction.label.toList ++ instruction.opcode.mnemonic :: instruction.operand.toList := by
  have hMnemonic := instruction.opcode.isRun_mnemonic
  obtain ⟨column, hColumn, rfl⟩ := render_eq_ok_iff.mp hRow
  rw [String.append_assoc, fields_labelColumn hColumn hLabel, operandText]
  congr 1
  cases hText : instruction.operand with
  | none =>
    rw [String.append_empty]
    exact Text.runs_of_isRun hMnemonic
  | some operand =>
    have hTail : (instruction.opcode.mnemonic ++ (" " ++ operand)).toList =
        instruction.opcode.mnemonic.toList ++ ' ' :: operand.toList := by
      simp
    have hSplit := Text.runs_append hMnemonic hTail (by decide)
    rw [Text.runs_of_isRun (hOperand operand hText)] at hSplit
    exact hSplit

theorem reads_render (h : Reads line instruction) (hRow : instruction.render width = .ok row) :
    Reads row { instruction with source := row } := by
  have hRendered := fields_render hRow h.isRun_label h.isRun_operand
  have hWord := instruction.opcode.ofMnemonic?_mnemonic
  cases h with
  | full _ _ hOpcode => exact .full hRendered hWord hOpcode
  | unlabelled _ _ hOpcode hCode => exact .unlabelled hRendered hWord hOpcode hCode
  | last _ hLabel _ => exact .last hRendered hLabel hWord

/-- A rendered line is read as the instruction it was rendered from. -/
theorem parse_render (h : parse line = .ok instruction)
    (hRow : instruction.render width = .ok row) :
    parse row = .ok { instruction with source := row } :=
  parse_eq_ok_iff.mpr (reads_render (parse_eq_ok_iff.mp h) hRow)

end Instruction

end Accumulator
