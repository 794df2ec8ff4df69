import Accumulator.Machine.State
import Accumulator.Program
import Accumulator.Record.Datum

/-! # Stored records

How each type of the library is stored and loaded again. An instruction is stored as its line
and a program as the list of its lines, and both are read again when they are loaded.
-/

namespace Accumulator

set_option autoImplicit false

inductive LoadFault where
  /-- It does not have the form of the type. -/
  | malformed
  /-- Its text is not an instruction or a program. -/
  | rejected (fault : Fault)
  deriving DecidableEq, Repr

class Storable (α : Type) where
  store : α → Datum
  load : Datum → Except LoadFault α

export Storable (store load)

/-- Loads a value and stores it again. -/
def reload (α : Type) [Storable α] (datum : Datum) : Except LoadFault Datum :=
  (load datum : Except LoadFault α).map store

def LoadFault.require {α : Type} : Option α → Except LoadFault α
  | some value => .ok value
  | none => .error .malformed

open LoadFault (require)

instance : Storable Bool where
  store := .bool
  load
    | .bool value => .ok value
    | _ => .error .malformed

instance : Storable Word where
  store value := .integer value.toInt
  load
    | .integer value =>
      if Int64.minValue.toInt ≤ value ∧ value ≤ Int64.maxValue.toInt then
        .ok (Int64.ofInt value)
      else
        .error .malformed
    | _ => .error .malformed

/-- Loads a natural number of 64 bits. -/
def loadIndex : Datum → Except LoadFault Nat
  | .integer value =>
    if 0 ≤ value ∧ value < UInt64.size then .ok value.toNat else .error .malformed
  | _ => .error .malformed

instance : Storable UInt64 where
  store value := .integer value.toNat
  load datum := (loadIndex datum).map UInt64.ofNat

/-- A value that may be absent is stored as null when it is. -/
instance (α : Type) [Storable α] : Storable (Option α) where
  store
    | some value => store value
    | none => .null
  load
    | .null => .ok none
    | datum => (load datum).map some

def Opcode.storedName : Opcode → String
  | load => "Load"
  | store => "Store"
  | add => "Add"
  | subtract => "Sub"
  | multiply => "Mult"
  | divide => "Div"
  | branchIfZero => "Be"
  | branchIfPositive => "Bg"
  | branchIfNegative => "Bl"
  | branchAlways => "Bu"
  | halt => "End"
  | read => "Read"
  | print => "Print"
  | declare => "Dc"

/-- Loads the value of a list whose name is stored. -/
def loadNamed {α : Type} (values : List α) (name : α → String) (datum : Datum) :
    Except LoadFault α :=
  require (datum.name?.bind fun stored => values.find? fun value => name value == stored)

instance : Storable Opcode where
  store opcode := .text opcode.storedName
  load := loadNamed Opcode.all Opcode.storedName

instance : Storable FaultClass where
  store faultClass := .text faultClass.name
  load := loadNamed [.malformed, .unknownOpcode, .validation, .runtime, .device] FaultClass.name

def SymbolKind.name : SymbolKind → String
  | code => "Code"
  | data => "Data"

instance : Storable SymbolKind where
  store kind := .text kind.name
  load := loadNamed [.code, .data] SymbolKind.name

instance : Storable Symbol where
  store symbol := .record [("index", .integer symbol.index), ("kind", store symbol.kind)]
  load datum :=
    match datum.fields? ["index", "kind"] with
    | some [some index, some kind] => return ⟨← loadIndex index, ← load kind⟩
    | _ => .error .malformed

instance : Storable Termination where
  store termination := .text termination.name
  load := loadNamed [.halted, .ranOffEnd] Termination.name

instance : Storable StepOutcome where
  store
    | .running => .text "Continue"
    | .finished termination => .record [("Finished", store termination)]
  load datum :=
    match datum.alternative? with
    | some ("Continue", .null) => .ok .running
    | some ("Finished", termination) => (load termination).map StepOutcome.finished
    | _ => .error .malformed

instance : Storable RunOutcome where
  store outcome :=
    .record [("steps", store outcome.steps), ("termination", store outcome.termination)]
  load datum :=
    match datum.fields? ["steps", "termination"] with
    | some [some steps, some termination] => return ⟨← load steps, ← load termination⟩
    | _ => .error .malformed

/-- A step limit that is not there is no limit. -/
instance : Storable Config where
  store config :=
    .record [("verbose", store config.verbose), ("step_limit", store config.stepLimit)]
  load datum :=
    match datum.fields? ["verbose", "step_limit"] with
    | some [some verbose, stepLimit] =>
      return ⟨← load verbose, ← load (stepLimit.getD .null)⟩
    | _ => .error .malformed

instance : Storable VariableStore where
  store memory := .record (memory.toList.map fun (name, value) => (name, store value))
  load
    | .record fields => do
      let entries ← fields.mapM fun (name, datum) => do
        let value : Word ← load datum
        return (name, value)
      return Std.ExtTreeMap.ofList entries
    | _ => .error .malformed

instance : Storable MachineState where
  store state :=
    .record [("accumulator", store state.accumulator), ("variables", store state.memory),
      ("counter", .integer state.counter), ("steps", store state.steps)]
  load datum :=
    match datum.fields? ["accumulator", "variables", "counter", "steps"] with
    | some [some accumulator, some memory, some counter, some steps] =>
      return ⟨← load accumulator, ← load memory, ← loadIndex counter, ← load steps⟩
    | _ => .error .malformed

instance : Storable Instruction where
  store instruction := .text instruction.source
  load
    | .text line =>
      match Instruction.parse line with
      | .ok instruction => .ok instruction
      | .error fault => .error (.rejected fault)
    | _ => .error .malformed

instance : Storable Program where
  store program :=
    .list (program.instructions.toList.map fun instruction => .text instruction.source)
  load datum := do
    match Program.ofLines (← require datum.texts?) with
    | .ok program => .ok program
    | .error fault => .error (.rejected fault)

end Accumulator
