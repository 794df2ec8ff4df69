import Accumulator.Program.Listing
import Accumulator.Proofs.Failure
import Accumulator.Proofs.Instruction.Rendering

/-! # Lines that cannot be shown

An instruction is shown in the listing of its program, unless its label would have to be filled up
beyond what a formatter fills. This takes a label of nearly as many bytes somewhere in the program:
the label column is only as wide as the longest label and its margin.
-/

namespace Accumulator

set_option autoImplicit false

namespace Program

open Instruction (Overwide)

variable {program : Program} {index : Nat} {crash : Crash}

/-- The label column has another width than the instruction can be shown with. -/
def CannotShow (program : Program) (index : Nat) : Prop :=
  ∃ instruction, program.get? index = some instruction ∧
    Overwide (program.columnWidth (index + 1)) instruction.label

def Showable (program : Program) : Prop :=
  ∀ index, ¬ program.CannotShow index

theorem showable_of_labelWidth_le (h : program.labelWidth ≤ Instruction.maxFill) :
    program.Showable := by
  rintro index ⟨instruction, _, hWide⟩
  have hWidth : program.columnWidth (index + 1) ≤ program.labelWidth := Nat.sub_le _ _
  exact Instruction.not_overwide_of_le (Nat.le_trans hWidth h) _ hWide

theorem row?_eq_error_iff :
    program.row? index = .error crash ↔
      program.CannotShow index ∧ crash = ⟨program.columnWidth (index + 1)⟩ := by
  simp only [row?, CannotShow]
  cases program.get? index with
  | none => exact iff_of_false nofun (by simp)
  | some instruction =>
    simp only [Option.some.injEq, exists_eq_left']
    rw [← Instruction.render_eq_error_iff]
    cases instruction.render (program.columnWidth (index + 1)) <;> simp [Functor.map, Except.map]

theorem row?_eq_some_iff {row : String} :
    program.row? index = .ok (some row) ↔ ∃ instruction, program.get? index = some instruction ∧
      instruction.render (program.columnWidth (index + 1)) = .ok row := by
  simp only [row?]
  cases program.get? index with
  | none => simp
  | some instruction =>
    simp only [Option.some.injEq, exists_eq_left']
    cases instruction.render (program.columnWidth (index + 1)) <;> simp [Functor.map, Except.map]

theorem row?_eq_none_iff : program.row? index = .ok none ↔ program.get? index = none := by
  simp only [row?]
  cases program.get? index with
  | none => simp
  | some instruction =>
    dsimp only
    cases instruction.render (program.columnWidth (index + 1)) <;> simp [Functor.map, Except.map]

theorem line?_eq_map (program : Program) (index : Nat) :
    program.line? index = (program.row? index).map
      (Option.map fun row => Decimal.ofNat (index + 1) ++ ": " ++ row) := by
  unfold line?
  cases program.row? index <;> rfl

theorem line?_eq_error_iff :
    program.line? index = .error crash ↔
      program.CannotShow index ∧ crash = ⟨program.columnWidth (index + 1)⟩ := by
  rw [← row?_eq_error_iff, line?_eq_map]
  cases program.row? index <;> simp [Except.map]

theorem line?_eq_none_iff : program.line? index = .ok none ↔ program.get? index = none := by
  rw [← row?_eq_none_iff, line?_eq_map]
  cases program.row? index <;> simp [Except.map]

theorem line?_eq_some_iff {line : String} :
    program.line? index = .ok (some line) ↔ ∃ instruction row,
      program.get? index = some instruction ∧
        instruction.render (program.columnWidth (index + 1)) = .ok row ∧
        line = Decimal.ofNat (index + 1) ++ ": " ++ row := by
  have hRow : program.line? index = .ok (some line) ↔ ∃ row,
      program.row? index = .ok (some row) ∧ line = Decimal.ofNat (index + 1) ++ ": " ++ row := by
    rw [line?_eq_map]
    rcases program.row? index with _ | _ | _ <;> simp [Except.map, eq_comm]
  simp only [hRow, row?_eq_some_iff]
  constructor
  · rintro ⟨row, ⟨instruction, hFound, hRendered⟩, hLine⟩
    exact ⟨instruction, row, hFound, hRendered, hLine⟩
  · rintro ⟨instruction, row, hFound, hRendered, hLine⟩
    exact ⟨row, ⟨instruction, hFound, hRendered⟩, hLine⟩

theorem exists_line?_of_showable (h : program.Showable) {instruction : Instruction}
    (hFound : program.get? index = some instruction) :
    ∃ line, program.line? index = .ok (some line) := by
  cases hLine : program.line? index with
  | error crash => exact absurd (line?_eq_error_iff.mp hLine).1 (h index)
  | ok line =>
    cases line with
    | some line => exact ⟨line, rfl⟩
    | none =>
      rw [line?_eq_none_iff.mp hLine] at hFound
      cases hFound

/-! ## The whole listing -/

section Collecting

variable {text? : Nat → Except Crash (Option String)}

theorem ne_ok_none_of_mem_range
    (hNone : ∀ index, text? index = .ok none ↔ program.get? index = none) :
    ∀ index ∈ List.range program.size, text? index ≠ .ok none := by
  intro index hMem hText
  have hEnd := (hNone index).mp hText
  exact Nat.not_lt_of_le (Array.getElem?_eq_none_iff.mp hEnd) (List.mem_range.mp hMem)

/-- The texts that are collected for the instructions are those for their indices. -/
theorem collect_eq_ok_iff
    (hNone : ∀ index, text? index = .ok none ↔ program.get? index = none) {texts : List String} :
    (List.range program.size).filterMapM text? = .ok texts ↔
      ∀ index, text? index = .ok texts[index]? := by
  rw [filterMapM_eq_ok_iff (ne_ok_none_of_mem_range hNone)]
  constructor
  · intro h index
    have hAt := congrArg (fun results => results[index]?) h
    simp only [List.getElem?_map] at hAt
    rcases Nat.lt_or_ge index program.size with hIndex | hIndex
    · rw [List.getElem?_range hIndex] at hAt
      obtain ⟨text, hText, hResult⟩ := Option.map_eq_some_iff.mp hAt.symm
      rw [hText, hResult]
    · rw [List.getElem?_eq_none (by simpa using hIndex), Option.map_none] at hAt
      rw [Option.map_eq_none_iff.mp hAt.symm]
      exact (hNone index).mpr (Array.getElem?_eq_none hIndex)
  · intro h
    apply List.ext_getElem?
    intro index
    have hText := h index
    simp only [List.getElem?_map]
    rcases Nat.lt_or_ge index program.size with hIndex | hIndex
    · rw [List.getElem?_range hIndex, Option.map_some]
      cases hFound : texts[index]? with
      | some text => rw [hText, hFound, Option.map_some]
      | none =>
        rw [hFound] at hText
        exact absurd hText (ne_ok_none_of_mem_range hNone index (List.mem_range.mpr hIndex))
    · rw [(hNone index).mpr (Array.getElem?_eq_none hIndex)] at hText
      rw [List.getElem?_eq_none (by simpa using hIndex), ← Except.ok.inj hText]
      rfl

/-- Texts can be collected exactly if there is one for every instruction. -/
theorem exists_collect_iff
    (hNone : ∀ index, text? index = .ok none ↔ program.get? index = none)
    (hError : ∀ index crash, text? index = .error crash ↔
      program.CannotShow index ∧ crash = ⟨program.columnWidth (index + 1)⟩) :
    (∃ texts, (List.range program.size).filterMapM text? = .ok texts) ↔ program.Showable := by
  constructor
  · rintro ⟨texts, hTexts⟩ index hCannot
    have hText := (collect_eq_ok_iff hNone).mp hTexts index
    rw [(hError index _).mpr ⟨hCannot, rfl⟩] at hText
    cases hText
  · intro hShowable
    cases hTexts : (List.range program.size).filterMapM text? with
    | ok texts => exact ⟨texts, rfl⟩
    | error crash =>
      obtain ⟨index, _, hCrash⟩ := exists_mem_of_filterMapM_eq_error hTexts
      exact absurd ((hError index crash).mp hCrash).1 (hShowable index)

end Collecting

theorem lines_eq_ok_iff {lines : List String} :
    program.lines = .ok lines ↔ ∀ index, program.line? index = .ok lines[index]? :=
  collect_eq_ok_iff fun _ => line?_eq_none_iff

theorem length_of_lines {lines : List String} (h : program.lines = .ok lines) :
    lines.length = program.size := by
  have hNone : ∀ index, program.line? index = .ok none ↔ program.get? index = none :=
    fun _ => line?_eq_none_iff
  have hSame := (filterMapM_eq_ok_iff (ne_ok_none_of_mem_range hNone)).mp h
  simpa using (congrArg List.length hSame).symm

theorem exists_lines_iff : (∃ lines, program.lines = .ok lines) ↔ program.Showable :=
  exists_collect_iff (fun _ => line?_eq_none_iff) fun _ _ => line?_eq_error_iff

theorem listing_eq_ok_iff {text : String} :
    program.listing = .ok text ↔ ∃ lines, program.lines = .ok lines ∧
      text = String.join (lines.map fun line => line ++ "\n") := by
  unfold listing
  cases program.lines with
  | error crash => exact iff_of_false nofun nofun
  | ok lines => simp [bind, Except.bind, pure, Except.pure, eq_comm]

theorem exists_listing_iff : (∃ text, program.listing = .ok text) ↔ program.Showable := by
  rw [← exists_lines_iff]
  simp only [listing_eq_ok_iff]
  constructor
  · rintro ⟨_, lines, hLines, _⟩
    exact ⟨lines, hLines⟩
  · rintro ⟨lines, hLines⟩
    exact ⟨_, lines, hLines, rfl⟩

/-! ## A label that is too long -/

def longLabel (count : Nat) : String :=
  String.ofList (List.replicate count 'A')

def longLine (count : Nat) : String :=
  longLabel count ++ " LOAD =1"

/-- The program of a single line with a label of `count` letters. -/
def longProgram (count : Nat) : Program :=
  ⟨#[⟨longLine count, some (longLabel count), .load, some "=1"⟩],
    (∅ : SymbolTable).insert (longLabel count) ⟨0, .code⟩, count + 3⟩

theorem utf8ByteSize_longLabel (count : Nat) : (longLabel count).utf8ByteSize = count := by
  have hSize : (longLabel count).utf8ByteSize =
      ((longLabel count).toList.flatMap String.utf8EncodeChar).length :=
    congrArg List.length (Text.encoded_eq_flatMap (longLabel count))
  rw [hSize, longLabel, String.toList_ofList, List.length_flatMap, List.map_replicate,
    List.sum_replicate]
  exact Nat.mul_one count

theorem isRun_longLabel {count : Nat} (h : 0 < count) :
    Text.IsRun Text.isGap (longLabel count) := by
  constructor
  · intro hEmpty
    have hSize := utf8ByteSize_longLabel count
    rw [hEmpty] at hSize
    exact absurd hSize (Nat.ne_of_lt h)
  · intro c hMem
    rw [longLabel, String.toList_ofList] at hMem
    rw [List.eq_of_mem_replicate hMem]
    decide

theorem fields_longLine {count : Nat} (h : 0 < count) :
    Text.fields (longLine count) = [longLabel count, "LOAD", "=1"] := by
  have hText : (longLine count).toList = (longLabel count).toList ++ ' ' :: "LOAD =1".toList := by
    simp [longLine]
  exact Text.runs_append (isRun_longLabel h) hText (by decide)

theorem parse_longLine {count : Nat} (h : 0 < count) :
    Instruction.parse (longLine count) =
      .ok ⟨longLine count, some (longLabel count), .load, some "=1"⟩ :=
  Instruction.parse_eq_ok_iff.mpr (.full (fields_longLine h) (by decide) (by decide))

theorem build_longProgram (count : Nat) :
    build (longProgram count).instructions.toList = .ok (longProgram count) := by
  have hSize : longestLabel (longProgram count).instructions.toList = count := by
    have hLabel := utf8ByteSize_longLabel count
    simpa [longestLabel, longProgram, Instruction.name] using hLabel
  have hLabels : defineLabels ∅ 0 (longProgram count).instructions.toList =
      .ok (longProgram count).symbols := by
    simp [defineLabels, longProgram, Instruction.symbolKind]
  rw [build, hLabels, hSize]
  rfl

theorem ofLines_longLine {count : Nat} (h : 0 < count) :
    ofLines [longLine count] = .ok (longProgram count) := by
  have hRead : [longLine count].mapM Instruction.parse =
      .ok (longProgram count).instructions.toList := by
    rw [mapM_eq_ok_iff, List.map_singleton, parse_longLine h]
    rfl
  rw [ofLines, hRead]
  exact build_longProgram count

theorem columnWidth_longProgram (count : Nat) : (longProgram count).columnWidth 1 = count + 3 := by
  have hDigits : Decimal.width 1 = 1 := by decide
  rw [columnWidth, hDigits]
  rfl

theorem line?_longProgram {count : Nat} (h : Instruction.maxFill < count + 3) :
    (longProgram count).line? 0 = .error ⟨count + 3⟩ := by
  refine line?_eq_error_iff.mpr ⟨⟨_, rfl, ?_⟩, ?_⟩
  · rw [columnWidth_longProgram]
    refine ⟨?_, h⟩
    rw [utf8ByteSize_longLabel]
    exact Nat.lt_add_of_pos_right (by decide)
  · rw [columnWidth_longProgram]

end Program

end Accumulator
