import Accumulator.Word
import Std.Data.ExtTreeMap

/-! # Machine state

What a running program can see or change, and the settings of a run.
-/

namespace Accumulator

set_option autoImplicit false

/-- Variables with their values, in the order of their names. -/
abbrev VariableStore : Type := Std.ExtTreeMap String Word

/-- The state between two instructions; a fresh one is all zero. -/
@[ext]
structure MachineState where
  accumulator : Word := 0
  /-- A variable is here from the first time it is written. -/
  memory : VariableStore := ∅
  counter : Nat := 0
  /-- The number of instructions executed. -/
  steps : UInt64 := 0
  deriving DecidableEq

namespace MachineState

def get? (state : MachineState) (name : String) : Option Word :=
  state.memory[name]?

def setAccumulator (value : Word) (state : MachineState) : MachineState :=
  { state with accumulator := value }

def setVariable (name : String) (value : Word) (state : MachineState) : MachineState :=
  { state with memory := state.memory.insert name value }

def setCounter (index : Nat) (state : MachineState) : MachineState :=
  { state with counter := index }

def maxSteps : UInt64 := 0xFFFFFFFFFFFFFFFF

/-- Counts an executed instruction; the count stays at its greatest value. -/
def retire (state : MachineState) : MachineState :=
  { state with steps := if state.steps = maxSteps then maxSteps else state.steps + 1 }

end MachineState

structure Config where
  verbose : Bool := false
  stepLimit : Option UInt64 := none
  deriving DecidableEq, Repr

/-- The step limit, once it is used up. -/
def Config.spentLimit? (config : Config) (steps : UInt64) : Option UInt64 :=
  config.stepLimit.filter fun limit => decide (limit ≤ steps)

inductive Termination where
  | halted
  | ranOffEnd
  deriving DecidableEq, Repr

def Termination.name : Termination → String
  | halted => "End"
  | ranOffEnd => "RanOffEnd"

inductive StepOutcome where
  | running
  | finished (termination : Termination)
  deriving DecidableEq, Repr

structure RunOutcome where
  /-- The number of instructions executed, an `END` included. -/
  steps : UInt64
  termination : Termination
  deriving DecidableEq, Repr

end Accumulator
