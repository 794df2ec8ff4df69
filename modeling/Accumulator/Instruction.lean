import Accumulator.Fault
import Accumulator.Opcode
import Accumulator.Text.Field

/-! # Instructions

An instruction keeps the line it was written as beside its label, operation and operand. It is
printed with the operation behind a label column of a given width, unless that is a width which a
text cannot be filled up to.
-/

namespace Accumulator

set_option autoImplicit false

structure Instruction where
  /-- The line as written. -/
  source : String
  /-- The name of a jump target, or of the variable that a declaration sets. -/
  label : Option String
  opcode : Opcode
  /-- A variable, a literal behind an equals sign, or the label to jump to. -/
  operand : Option String
  deriving DecidableEq, Repr

/-- What an operand stands for when its value is wanted. -/
inductive Operand where
  | immediate (literal : String)
  | variable (name : String)
  deriving DecidableEq, Repr

/-- An equals sign in front marks a literal. -/
def Operand.classify (text : String) : Operand :=
  match text.toList with
  | '=' :: literal => .immediate (String.ofList literal)
  | _ => .variable text

namespace Instruction

def operandForm? (instruction : Instruction) : Option Operand :=
  instruction.operand.map Operand.classify

/-- The operand as written, empty if there is none. -/
def target (instruction : Instruction) : String :=
  instruction.operand.getD ""

/-- The label as written, empty if there is none. -/
def name (instruction : Instruction) : String :=
  instruction.label.getD ""

def site (instruction : Instruction) (index : Nat) : Site :=
  ⟨index, instruction.source⟩

/-- The operation has the operand and the label that it needs, and no other operand. -/
def WellShaped (instruction : Instruction) : Prop :=
  instruction.opcode.takesOperand = instruction.operand.isSome ∧
    (instruction.opcode = .declare → instruction.label.isSome)

instance (instruction : Instruction) : Decidable instruction.WellShaped :=
  inferInstanceAs (Decidable (_ ∧ _))

theorem WellShaped.operand_eq {instruction : Instruction} (h : instruction.WellShaped)
    (hOpcode : instruction.opcode ≠ .halt) : instruction.operand = some instruction.target := by
  have hTakes := Opcode.takesOperand_eq_true_iff.mpr hOpcode
  obtain ⟨operand, hOperand⟩ := Option.isSome_iff_exists.mp (h.1.symm.trans hTakes)
  rw [target, hOperand, Option.getD_some]

theorem WellShaped.label_eq {instruction : Instruction} (h : instruction.WellShaped)
    (hOpcode : instruction.opcode = .declare) : instruction.label = some instruction.name := by
  obtain ⟨label, hLabel⟩ := Option.isSome_iff_exists.mp (h.2 hOpcode)
  rw [name, hLabel, Option.getD_some]

/-- The greatest width that a formatter fills a text up to. -/
def maxFill : Nat := UInt16.size - 1

/-- The greatest number of spaces that can be asked for. -/
def maxSpaces : Nat := UInt64.size / 2 - 1

/-- The label column. A label of at least `width` bytes is followed by one space; any other is
filled up with spaces to `width` characters. -/
def labelColumn (label : Option String) (width : Nat) : Except Crash String :=
  match label with
  | some label =>
    if width ≤ label.utf8ByteSize then .ok (label ++ " ")
    else if width ≤ maxFill then .ok (label ++ Text.spaces (width - label.length))
    else .error ⟨width⟩
  | none => if width ≤ maxSpaces then .ok (Text.spaces width) else .error ⟨width⟩

/-- The operand with the space in front of it, if there is one. -/
def operandText (instruction : Instruction) : String :=
  match instruction.operand with
  | some operand => " " ++ operand
  | none => ""

def render (instruction : Instruction) (width : Nat) : Except Crash String := do
  let column ← labelColumn instruction.label width
  return column ++ instruction.opcode.mnemonic ++ instruction.operandText

end Instruction

end Accumulator
