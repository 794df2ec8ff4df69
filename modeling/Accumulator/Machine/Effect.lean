import Accumulator.Instruction
import Accumulator.Machine.State

/-! # Effects of instructions

An instruction and the state decide together what is to be done, before anything is done. Every
fault of evaluation arises here, so that evaluation cannot leave a state half changed.
-/

namespace Accumulator

set_option autoImplicit false

/-- What an instruction is going to do. -/
inductive Effect where
  | compute (value : Word)
  | store (name : String) (value : Word)
  | print (operand : String) (value : Word)
  /-- Jump to a label, if the branch is taken. -/
  | branch (taken : Bool) (label : String)
  | read (name : String)
  | halt
  deriving DecidableEq, Repr

/-- The value of a literal of 32 bits, reduced. -/
def literalValue (literal : String) (site : Site) : Except Fault Word :=
  match Decimal.int32? literal with
  | some value => .ok (Word.reduce (Int64.ofInt value))
  | none => .error (.invalidNumber literal site)

namespace MachineState

def operandValue (state : MachineState) (instruction : Instruction) (site : Site) :
    Except Fault Word :=
  match instruction.operandForm? with
  | some (.immediate literal) => literalValue literal site
  | some (.variable name) =>
    match state.get? name with
    | some value => .ok value
    | none => .error (.undefinedVariable name site)
  | none => .error (.undefinedVariable "" site)

def computeWith (state : MachineState) (instruction : Instruction) (site : Site)
    (operation : Word → Word → Word) : Except Fault Effect := do
  let value ← state.operandValue instruction site
  return .compute (operation state.accumulator value)

/-- What an instruction at an index is going to do. -/
def effect (state : MachineState) (instruction : Instruction) (index : Nat) :
    Except Fault Effect :=
  let site := instruction.site index
  match instruction.opcode with
  | .load => state.computeWith instruction site fun _ value => value
  | .store => .ok (.store instruction.target state.accumulator)
  | .add => state.computeWith instruction site Word.sum
  | .subtract => state.computeWith instruction site Word.difference
  | .multiply => state.computeWith instruction site Word.product
  | .divide => do
    let value ← state.operandValue instruction site
    match Word.quotient? state.accumulator value with
    | some quotient => .ok (.compute quotient)
    | none => .error (.divisionByZero instruction.target site)
  | .branchIfZero => .ok (.branch (decide (state.accumulator = 0)) instruction.target)
  | .branchIfPositive => .ok (.branch (decide (0 < state.accumulator)) instruction.target)
  | .branchIfNegative => .ok (.branch (decide (state.accumulator < 0)) instruction.target)
  | .branchAlways => .ok (.branch true instruction.target)
  | .read => .ok (.read instruction.target)
  | .print => do
    let value ← state.operandValue instruction site
    return .print instruction.target value
  | .declare => do
    let value ← literalValue instruction.target site
    return .store instruction.name value
  | .halt => .ok .halt

end MachineState

end Accumulator
