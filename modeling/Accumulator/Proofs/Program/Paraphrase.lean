import Accumulator.Program.Listing
import Mathlib.Data.List.Forall2

/-! # Paraphrases

A program is paraphrased by writing its lines in other words: the instructions keep their labels,
operations and operands. Everything that is recorded when a program is built, and the whole
listing, is a matter of these.
-/

namespace Accumulator

set_option autoImplicit false

/-- Equal but for the line as written. -/
structure Instruction.SameFields (left right : Instruction) : Prop where
  label : left.label = right.label
  opcode : left.opcode = right.opcode
  operand : left.operand = right.operand

namespace Instruction.SameFields

variable {left right : Instruction}

theorem name (h : left.SameFields right) : left.name = right.name :=
  congrArg (Option.getD · "") h.label

theorem target (h : left.SameFields right) : left.target = right.target :=
  congrArg (Option.getD · "") h.operand

theorem symbolKind (h : left.SameFields right) : left.symbolKind = right.symbolKind := by
  rw [Instruction.symbolKind, Instruction.symbolKind, h.opcode]

theorem operandText (h : left.SameFields right) : left.operandText = right.operandText := by
  rw [Instruction.operandText, Instruction.operandText, h.operand]

theorem render (h : left.SameFields right) (width : Nat) :
    left.render width = right.render width := by
  rw [Instruction.render, Instruction.render, h.label, h.opcode, h.operandText]

end Instruction.SameFields

namespace Program

open Instruction (SameFields)

structure Paraphrases (program copy : Program) : Prop where
  size : program.size = copy.size
  get? : ∀ index, Option.Rel SameFields (program.get? index) (copy.get? index)
  symbols : program.symbols = copy.symbols
  labelWidth : program.labelWidth = copy.labelWidth

/-! ## Building -/

variable {instructions others : List Instruction}

theorem defineLabels_of_sameFields (h : List.Forall₂ SameFields instructions others)
    (symbols : SymbolTable) (index : Nat) :
    defineLabels symbols index instructions = defineLabels symbols index others := by
  induction h generalizing symbols index with
  | nil => rfl
  | cons hFields _ ih =>
    simp only [defineLabels, hFields.label, hFields.symbolKind, ih]

theorem checkBranches_of_sameFields (h : List.Forall₂ SameFields instructions others)
    (symbols : SymbolTable) (index : Nat) :
    checkBranches symbols index instructions = checkBranches symbols index others := by
  induction h generalizing index with
  | nil => rfl
  | cons hFields _ ih =>
    simp only [checkBranches, hFields.opcode, hFields.target, ih]

theorem longestLabel_of_sameFields (h : List.Forall₂ SameFields instructions others) :
    longestLabel instructions = longestLabel others := by
  refine List.rel_foldl ?_ rfl h
  rintro longest _ rfl left right hFields
  exact congrArg (fun name => max longest name.utf8ByteSize) hFields.name

theorem getElem?_of_sameFields (h : List.Forall₂ SameFields instructions others) (index : Nat) :
    Option.Rel SameFields instructions[index]? others[index]? := by
  induction h generalizing index with
  | nil => exact .none
  | cons hFields _ ih =>
    cases index with
    | zero => exact .some hFields
    | succ index => exact ih index

/-- Instructions in other words build the same program in other words. -/
theorem build_of_sameFields (h : List.Forall₂ SameFields instructions others) {program : Program}
    (hBuild : build instructions = .ok program) :
    ∃ copy, build others = .ok copy ∧ program.Paraphrases copy := by
  obtain ⟨symbols, hLabels, hBranches, rfl⟩ := build_ok hBuild
  rw [defineLabels_of_sameFields h] at hLabels
  rw [checkBranches_of_sameFields h] at hBranches
  refine ⟨⟨others.toArray, symbols, longestLabel others + labelMargin⟩, ?_, ?_, ?_, rfl, ?_⟩
  · simp only [build, hLabels, hBranches, bind, Except.bind]
    rfl
  · exact h.length_eq
  · intro index
    simpa [get?] using getElem?_of_sameFields h index
  · exact congrArg (· + labelMargin) (longestLabel_of_sameFields h)

/-! ## Listing -/

namespace Paraphrases

variable {program copy : Program}

theorem row? (h : program.Paraphrases copy) (index : Nat) :
    program.row? index = copy.row? index := by
  have hFound := h.get? index
  unfold Program.row? columnWidth
  rw [h.labelWidth]
  generalize program.get? index = first, copy.get? index = second at hFound ⊢
  cases hFound with
  | none => rfl
  | some hFields =>
    dsimp only
    rw [hFields.render]

theorem line? (h : program.Paraphrases copy) (index : Nat) :
    program.line? index = copy.line? index := by
  rw [Program.line?, Program.line?, h.row?]

theorem listing (h : program.Paraphrases copy) : program.listing = copy.listing := by
  have hLines : program.line? = copy.line? := funext h.line?
  rw [Program.listing, Program.listing, Program.lines, Program.lines, h.size, hLines]

end Paraphrases

end Program

end Accumulator
