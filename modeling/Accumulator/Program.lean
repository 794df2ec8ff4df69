import Accumulator.Instruction.Parser
import Accumulator.Text.Line
import Std.Data.ExtTreeMap

/-! # Programs

A program is a list of instructions whose labels are all different and whose branches all name
the label of an instruction that is not a declaration. Building one records where each label
is defined and how wide the label column of a listing is.
-/

namespace Accumulator

set_option autoImplicit false

inductive SymbolKind where
  | code
  | data
  deriving DecidableEq, Repr

structure Symbol where
  index : Nat
  kind : SymbolKind
  deriving DecidableEq, Repr

/-- Labels with their definitions, in the order of the labels. -/
abbrev SymbolTable : Type := Std.ExtTreeMap String Symbol

def SymbolTable.jumpTarget? (symbols : SymbolTable) (label : String) : Option Nat :=
  match symbols[label]? with
  | some ⟨index, .code⟩ => some index
  | _ => none

def Instruction.symbolKind (instruction : Instruction) : SymbolKind :=
  if instruction.opcode = .declare then .data else .code

structure Program where
  instructions : Array Instruction
  symbols : SymbolTable
  labelWidth : Nat
  deriving DecidableEq

namespace Program

/-- Enters the labels of the instructions from `index` on; a label that is already there is
refused. -/
def defineLabels (symbols : SymbolTable) (index : Nat) :
    List Instruction → Except Fault SymbolTable
  | [] => .ok symbols
  | instruction :: rest =>
    match instruction.label with
    | none => defineLabels symbols (index + 1) rest
    | some label =>
      if label ∈ symbols then .error (.duplicateLabel label index)
      else
        defineLabels (symbols.insert label ⟨index, instruction.symbolKind⟩) (index + 1) rest

/-- Refuses the first branch from `index` on that has nowhere to jump to. -/
def checkBranches (symbols : SymbolTable) (index : Nat) : List Instruction → Except Fault Unit
  | [] => .ok ()
  | instruction :: rest =>
    if instruction.opcode.isBranch ∧ symbols.jumpTarget? instruction.target = none then
      .error (.undefinedBranch instruction.target index)
    else
      checkBranches symbols (index + 1) rest

def labelMargin : Nat := 3

def longestLabel (instructions : List Instruction) : Nat :=
  instructions.foldl (fun longest instruction => max longest instruction.name.utf8ByteSize) 0

/-- Builds a program. A repeated label is reported before any branch. -/
def build (instructions : List Instruction) : Except Fault Program := do
  let symbols ← defineLabels ∅ 0 instructions
  checkBranches symbols 0 instructions
  return ⟨instructions.toArray, symbols, longestLabel instructions + labelMargin⟩

/-- Reads and builds a program; the first line that cannot be read is reported before any
label. -/
def ofLines (lines : List String) : Except Fault Program := do
  build (← lines.mapM Instruction.parse)

def ofText (text : String) : Except Fault Program :=
  ofLines (Text.lines text)

def size (program : Program) : Nat :=
  program.instructions.size

def get? (program : Program) (index : Nat) : Option Instruction :=
  program.instructions[index]?

def jumpTarget? (program : Program) (label : String) : Option Nat :=
  program.symbols.jumpTarget? label

theorem build_ok {instructions : List Instruction} {program : Program}
    (h : build instructions = .ok program) :
    ∃ symbols, defineLabels ∅ 0 instructions = .ok symbols ∧
      checkBranches symbols 0 instructions = .ok () ∧
      program = ⟨instructions.toArray, symbols, longestLabel instructions + labelMargin⟩ := by
  unfold build at h
  cases hLabels : defineLabels ∅ 0 instructions with
  | error fault => rw [hLabels] at h; cases h
  | ok symbols =>
    rw [hLabels] at h
    cases hBranches : checkBranches symbols 0 instructions with
    | error fault => simp only [bind, Except.bind, hBranches] at h; cases h
    | ok _ =>
      simp only [bind, Except.bind, hBranches] at h
      cases h
      exact ⟨symbols, rfl, hBranches, rfl⟩

theorem instructions_of_build {instructions : List Instruction} {program : Program}
    (h : build instructions = .ok program) : program.instructions.toList = instructions := by
  obtain ⟨_, _, _, rfl⟩ := build_ok h
  rfl

end Program

end Accumulator
