import Accumulator.Machine.Run

/-! # Journals

What a host can record of building and running programs. A journal is computed from the same
program and session as the run, and has no part in it.
-/

namespace Accumulator.Journal

set_option autoImplicit false

inductive Level where
  | debug
  | trace
  deriving DecidableEq, Repr

structure Entry where
  level : Level
  message : String
  deriving DecidableEq, Repr

def Entry.line (entry : Entry) : String :=
  match entry.level with
  | .debug => "DEBUG " ++ entry.message
  | .trace => "TRACE " ++ entry.message

def built (program : Program) : Entry :=
  ⟨.debug, "built program: " ++ Decimal.ofNat program.size ++ " instructions, "
    ++ Decimal.ofNat program.symbols.size ++ " labels, label width "
    ++ Decimal.ofNat program.labelWidth⟩

def loaded (path : String) (program : Program) : Entry :=
  ⟨.debug, "loaded " ++ path ++ " (" ++ Decimal.ofNat program.size ++ " instructions)"⟩

def limitText : Option UInt64 → String
  | none => "None"
  | some limit => "Some(" ++ Decimal.ofNat limit.toNat ++ ")"

def runStarted (config : Config) (program : Program) : Entry :=
  ⟨.debug, "run start: " ++ Decimal.ofNat program.size ++ " instructions, verbose="
    ++ (if config.verbose then "true" else "false") ++ ", step limit "
    ++ limitText config.stepLimit⟩

/-- A step begins that has an instruction to execute and may execute it. -/
def stepStarted? (config : Config) (program : Program) (state : MachineState) : Option Entry :=
  match program.get? state.counter, config.spentLimit? state.steps with
  | some instruction, none =>
    some ⟨.trace, "step " ++ Decimal.ofNat state.steps.toNat ++ " @"
      ++ Decimal.ofNat state.counter ++ ": " ++ instruction.source ++ " (acc="
      ++ Decimal.ofWord state.accumulator ++ ")"⟩
  | _, _ => none

variable {ι ω : Type} [InputDevice ι] [OutputDevice ω]

/-- The entries of at most `fuel` steps. -/
def ofSteps (config : Config) (program : Program) : Nat → Session ι ω → List Entry
  | 0, _ => []
  | fuel + 1, session =>
    let entries := (stepStarted? config program session.state).toList
    match Execution.step config program session with
    | .ok .running session => entries ++ ofSteps config program fuel session
    | _ => entries

/-- The end of a run is recorded if it returns. -/
def runEnded? : Execution.RunResult ι ω → Option Entry
  | .ok outcome _ =>
    some ⟨.debug, "run finished after " ++ Decimal.ofNat outcome.steps.toNat ++ " steps ("
      ++ outcome.termination.name ++ ")"⟩
  | .error (.fault fault) _ =>
    some ⟨.debug, "run failed (" ++ fault.faultClass.name ++ "): " ++ fault.message⟩
  | .error (.crash _) _ => none

/-- The entries of a run of at most `fuel` steps. -/
def ofRun (fuel : Nat) (config : Config) (program : Program) (session : Session ι ω) :
    List Entry :=
  runStarted config program ::
    (ofSteps config program fuel (Execution.restart session)
      ++ ((Execution.run fuel config program session).bind runEnded?).toList)

end Accumulator.Journal
