import Accumulator.Proofs.Instruction.Columns
import Accumulator.Proofs.Program.Building
import Accumulator.Proofs.Program.Display
import Mathlib.Data.Nat.Digits.Defs

/-! # Columns of a listing

The digits of a line number are taken out of the label column, so that the operations of a listing
stand in one column as long as the column has room for them. It has room for the digits of the
first 999 numbers. Beyond these a label can be too long by itself or for being counted in bytes, and
a number alone can be longer than the column.
-/

namespace Accumulator

set_option autoImplicit false

namespace Decimal

theorem width_pos (n : Nat) : 1 ≤ width n :=
  List.length_pos_iff.mpr Nat.toDigits_ne_nil

theorem width_le_three {n : Nat} (h : n < 1000) : width n ≤ 3 :=
  Nat.toDigits_length 10 n 3 (by decide) h

theorem length_ofNat (n : Nat) : (ofNat n).length = width n := by
  rw [ofNat, String.length_ofList, width]

end Decimal

namespace Program

variable {program : Program}

/-- A number of this many digits leaves room in the label column: for one space behind the bytes of
the label, or exactly for one space behind its characters. -/
def HasRoom (width digits : Nat) : Option String → Prop
  | some label => label.utf8ByteSize + digits ≤ width ∨ label.length + digits = width
  | none => digits ≤ width + 1

/-- The column directly behind the number, or behind the label and one space. -/
def closeColumn (digits : Nat) : Option String → Nat
  | some label => digits + 2 + label.length + 1
  | none => digits + 2

/-- The number of characters in front of the operation. -/
def operationColumn (width digits : Nat) (label : Option String) : Nat :=
  digits + 2 + Instruction.columnLength label (width - (digits - 1))

theorem operationColumn_eq_iff {width digits : Nat} (hDigits : 1 ≤ digits) (label : Option String) :
    operationColumn width digits label = width + 3 ↔ HasRoom width digits label := by
  rw [operationColumn]
  cases label with
  | none =>
    simp only [HasRoom, Instruction.columnLength]
    omega
  | some label =>
    have hLength := Text.length_le_utf8ByteSize label
    simp only [HasRoom, Instruction.columnLength]
    split <;> omega

/-- Where there is no room the number and the label stand close to the operation. -/
theorem operationColumn_of_not_hasRoom {width digits : Nat} {label : Option String}
    (h : ¬ HasRoom width digits label) :
    operationColumn width digits label = closeColumn digits label := by
  rw [operationColumn]
  cases label with
  | none =>
    simp only [HasRoom] at h
    simp only [closeColumn, Instruction.columnLength]
    omega
  | some label =>
    simp only [HasRoom] at h
    simp only [closeColumn, Instruction.columnLength]
    split <;> omega

theorem operationAt_of_line? {index : Nat} {line : String} {instruction : Instruction}
    (hLine : program.line? index = .ok (some line))
    (hFound : program.get? index = some instruction) :
    instruction.OperationAt (Decimal.ofNat (index + 1) ++ ": ") line
      (operationColumn program.labelWidth (Decimal.width (index + 1)) instruction.label) := by
  obtain ⟨shown, row, hShown, hRow, rfl⟩ := line?_eq_some_iff.mp hLine
  have hSame := hShown.symm.trans hFound
  cases hSame
  have hFront : (Decimal.ofNat (index + 1) ++ ": ").length = Decimal.width (index + 1) + 2 := by
    rw [String.length_append, Decimal.length_ofNat]
    rfl
  rw [operationColumn, ← hFront]
  exact Instruction.operationAt_of_render hRow _

theorem hasRoom_of_lt {instructions : List Instruction} {index : Nat} {instruction : Instruction}
    (hBuild : build instructions = .ok program) (hFound : program.get? index = some instruction)
    (hIndex : index < 999) :
    HasRoom program.labelWidth (Decimal.width (index + 1)) instruction.label := by
  obtain ⟨widest, ⟨hWidest, _⟩, hWidth⟩ := (tabulates_of_build hBuild).width
  have hDigits := Decimal.width_le_three (show index + 1 < 1000 by omega)
  rw [get?_of_build hBuild] at hFound
  cases hLabel : instruction.label with
  | none =>
    simp only [HasRoom]
    omega
  | some label =>
    have hSize := hWidest index label ⟨instruction, hFound, hLabel⟩
    simp only [HasRoom]
    omega

/-- A listing is shown exactly if no line of it has a label column that cannot be filled up. In
every line that is shown the operation has one column. It is the width of the label column and three
exactly if there is room for it, as there is in each of the first 999 lines; and else it is directly
behind the number, or behind the label and one space. -/
theorem listing_aligned_iff {source : List String} (h : ofLines source = .ok program) :
    (program.labelWidth ≤ Instruction.maxFill → program.Showable) ∧
    ((∃ text, program.listing = .ok text) ↔ program.Showable) ∧
    (∀ text, program.listing = .ok text → ∃ lines : List String,
      text = String.join (lines.map fun line => line ++ "\n") ∧ lines.length = program.size ∧
        ∀ index, program.line? index = .ok lines[index]?) ∧
    ∀ index line instruction, program.line? index = .ok (some line) →
      program.get? index = some instruction →
      ∃ column,
        (∀ other, instruction.OperationAt (Decimal.ofNat (index + 1) ++ ": ") line other ↔
          other = column) ∧
        (column = program.labelWidth + 3 ↔
          HasRoom program.labelWidth (Decimal.width (index + 1)) instruction.label) ∧
        (index < 999 → column = program.labelWidth + 3) ∧
        (column ≠ program.labelWidth + 3 →
          column = closeColumn (Decimal.width (index + 1)) instruction.label) := by
  refine ⟨showable_of_labelWidth_le, exists_listing_iff, ?_, ?_⟩
  · intro text hText
    obtain ⟨lines, hLines, hJoined⟩ := listing_eq_ok_iff.mp hText
    exact ⟨lines, hJoined, length_of_lines hLines, lines_eq_ok_iff.mp hLines⟩
  · intro index line instruction hLine hFound
    obtain ⟨instructions, _, hBuild⟩ := exists_of_bind_eq_ok h
    have hColumn := operationAt_of_line? hLine hFound
    have hDigits := Decimal.width_pos (index + 1)
    have hAligned : operationColumn program.labelWidth (Decimal.width (index + 1))
          instruction.label = program.labelWidth + 3 ↔
        HasRoom program.labelWidth (Decimal.width (index + 1)) instruction.label :=
      operationColumn_eq_iff hDigits instruction.label
    refine ⟨_, fun other => ⟨hColumn.unique, fun hSame => hSame ▸ hColumn⟩, hAligned, ?_, ?_⟩
    · intro hIndex
      exact hAligned.mpr (hasRoom_of_lt hBuild hFound hIndex)
    · intro hOff
      exact operationColumn_of_not_hasRoom (hOff ∘ hAligned.mpr)

/-- Lines without labels, and a last one with a label of ten characters and twenty bytes. -/
def lateLabel (count : Nat) : List String :=
  List.replicate count "LOAD =1" ++ ["éééééééééé LOAD =1"]

def lateInstructions (count : Nat) : List Instruction :=
  List.replicate count ⟨"LOAD =1", none, .load, some "=1"⟩ ++
    [⟨"éééééééééé LOAD =1", some "éééééééééé", .load, some "=1"⟩]

theorem getElem?_lateInstructions_of_lt {count index : Nat} (h : index < count) :
    (lateInstructions count)[index]? = some ⟨"LOAD =1", none, .load, some "=1"⟩ := by
  rw [lateInstructions, List.getElem?_append_left (by simpa using h),
    List.getElem?_replicate_of_lt h]

theorem getElem?_lateInstructions_self (count : Nat) :
    (lateInstructions count)[count]? =
      some ⟨"éééééééééé LOAD =1", some "éééééééééé", .load, some "=1"⟩ := by
  rw [lateInstructions, List.getElem?_append_right (by simp), List.length_replicate,
    Nat.sub_self]
  rfl

theorem carriesAt_lateInstructions_iff {count index : Nat} {label : String} :
    CarriesAt (lateInstructions count) index label ↔ index = count ∧ label = "éééééééééé" := by
  rcases Nat.lt_trichotomy index count with hFront | rfl | hBehind
  · simp [CarriesAt, getElem?_lateInstructions_of_lt hFront, Nat.ne_of_lt hFront]
  · simp [CarriesAt, getElem?_lateInstructions_self, eq_comm]
  · have hNone : (lateInstructions count)[index]? = none := by
      rw [List.getElem?_eq_none_iff, lateInstructions]
      simpa using Nat.succ_le_of_lt hBehind
    simp [CarriesAt, hNone, Nat.ne_of_gt hBehind]

theorem exists_ofLines_lateLabel (count : Nat) :
    ∃ program, ofLines (lateLabel count) = .ok program ∧ program.labelWidth = 23 ∧
      ∀ index, program.get? index = (lateInstructions count)[index]? := by
  have hRead : (lateLabel count).mapM Instruction.parse = .ok (lateInstructions count) := by
    rw [mapM_eq_ok_iff, lateLabel, lateInstructions, List.map_append, List.map_append,
      List.map_replicate, List.map_replicate]
    rfl
  have hBuild : ∃ program, build (lateInstructions count) = .ok program := by
    rcases build_cases (lateInstructions count) with
      ⟨program, hBuild, _⟩ | ⟨index, label, ⟨⟨hCarries, earlier, hLess, hEarlier⟩, _⟩, _⟩ |
      ⟨_, index, label, ⟨⟨instruction, hFound, hBranch, _⟩, _⟩, _⟩
    · exact ⟨program, hBuild⟩
    · obtain ⟨rfl, _⟩ := carriesAt_lateInstructions_iff.mp hCarries
      obtain ⟨rfl, _⟩ := carriesAt_lateInstructions_iff.mp hEarlier
      exact absurd hLess (Nat.lt_irrefl _)
    · have hLoad : ∀ other ∈ lateInstructions count, other.opcode = .load := by
        intro other hMem
        rcases List.mem_append.mp hMem with hFront | hLast
        · rw [List.eq_of_mem_replicate hFront]
        · rw [List.mem_singleton.mp hLast]
      rw [hLoad instruction (List.mem_of_getElem? hFound)] at hBranch
      cases hBranch
  obtain ⟨program, hBuild⟩ := hBuild
  refine ⟨program, ?_, ?_, get?_of_build hBuild⟩
  · rw [ofLines, hRead]
    exact hBuild
  · obtain ⟨widest, ⟨hWidest, hReached⟩, hWidth⟩ := (tabulates_of_build hBuild).width
    have hSize : ("éééééééééé" : String).utf8ByteSize = 20 := rfl
    have hLate := hWidest count _ (carriesAt_lateInstructions_iff.mpr ⟨rfl, rfl⟩)
    rcases hReached with rfl | ⟨index, label, hCarries, rfl⟩
    · omega
    · obtain ⟨_, rfl⟩ := carriesAt_lateInstructions_iff.mp hCarries
      omega

theorem listing_aligned_iff_lateLabel :
    ∃ program, ofLines (lateLabel 999) = .ok program ∧ (∃ text, program.listing = .ok text) ∧
      ∃ line instruction, program.line? 998 = .ok (some line) ∧
        program.get? 998 = some instruction ∧ instruction.OperationAt "999: " line 26 := by
  obtain ⟨program, hLines, hWidth, hRead⟩ := exists_ofLines_lateLabel 999
  obtain ⟨hNarrow, hListing, _, hColumns⟩ := listing_aligned_iff hLines
  have hShowable := hNarrow (by rw [hWidth]; decide)
  have hFound : program.get? 998 = some ⟨"LOAD =1", none, .load, some "=1"⟩ := by
    rw [hRead, getElem?_lateInstructions_of_lt (by decide)]
  obtain ⟨line, hLine⟩ := exists_line?_of_showable hShowable hFound
  obtain ⟨column, hColumn, _, hEarly, _⟩ := hColumns 998 line _ hLine hFound
  have hAligned : 26 = column := by
    rw [hEarly (by decide), hWidth]
  exact ⟨program, hLines, hListing.mpr hShowable, line, _, hLine, hFound,
    (hColumn 26).mpr hAligned⟩

/-- A label of twenty bytes in the last of a thousand lines fills the column of twenty that is left
there, although it has only ten characters. -/
theorem exists_listing_not_aligned :
    ∃ program, ofLines (lateLabel 999) = .ok program ∧ program.labelWidth + 3 = 26 ∧
      ∃ line instruction, program.line? 999 = .ok (some line) ∧
        program.get? 999 = some instruction ∧ instruction.OperationAt "1000: " line 17 ∧
        ¬ instruction.OperationAt "1000: " line 26 := by
  obtain ⟨program, hLines, hWidth, hRead⟩ := exists_ofLines_lateLabel 999
  have hShowable : program.Showable := showable_of_labelWidth_le (by rw [hWidth]; decide)
  have hFound : program.get? 999 =
      some ⟨"éééééééééé LOAD =1", some "éééééééééé", .load, some "=1"⟩ := by
    rw [hRead, getElem?_lateInstructions_self]
  obtain ⟨line, hLine⟩ := exists_line?_of_showable hShowable hFound
  have hColumn := operationAt_of_line? hLine hFound
  have hOff : operationColumn program.labelWidth (Decimal.width (999 + 1))
      (some "éééééééééé") = 17 := by
    rw [hWidth]
    rfl
  rw [hOff] at hColumn
  refine ⟨program, hLines, by rw [hWidth], line, _, hLine, hFound, hColumn, ?_⟩
  intro hAligned
  have hSame := hColumn.unique hAligned
  cases hSame

end Program

end Accumulator
