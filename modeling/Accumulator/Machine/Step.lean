import Accumulator.Device.Input
import Accumulator.Device.Output
import Accumulator.Machine.Effect
import Accumulator.Program.Listing

/-! # Execution of one instruction

A step fetches the instruction at the counter, announces it if asked to, decides its effect and
carries it out on the state and the devices. The state is changed before the change is echoed,
and the instruction is counted last. An instruction that is to be announced crashes the step if its
line cannot be shown.
-/

namespace Accumulator

set_option autoImplicit false

/-- A machine state with the devices that it is connected to. -/
@[ext]
structure Session (ι ω : Type) where
  state : MachineState
  input : ι
  output : ω

/-- Computations on a session, which keep what they did when they fail. -/
abbrev Execution (ι ω : Type) : Type → Type := EStateM Failure (Session ι ω)

namespace Execution

variable {ι ω : Type} [InputDevice ι] [OutputDevice ω]

def change (update : MachineState → MachineState) : Execution ι ω Unit :=
  modify fun ⟨state, input, output⟩ => ⟨update state, input, output⟩

def onOutput {α : Type} (action : EStateM String ω α) : Execution ι ω α :=
  fun ⟨state, input, output⟩ =>
    match action output with
    | .ok value output => .ok value ⟨state, input, output⟩
    | .error message output => .error (.fault (.device message)) ⟨state, input, output⟩

def emit (text : String) : Execution ι ω Unit :=
  onOutput (OutputDevice.write text)

/-- What only a verbose run does. -/
def traced (config : Config) (action : Execution ι ω Unit) : Execution ι ω Unit :=
  if config.verbose then action else pure ()

def echo (config : Config) (text : String) : Execution ι ω Unit :=
  traced config (emit text)

def inputFault (site : Site) : InputFault → Fault
  | .exhausted => .inputExhausted site
  | .invalid token => .invalidNumber token site
  | .stream message => .device message

def takeInput (site : Site) : Execution ι ω Word :=
  fun ⟨state, input, output⟩ =>
    match InputDevice.read input with
    | .ok value input => .ok value ⟨state, input, output⟩
    | .error fault input => .error (.fault (inputFault site fault)) ⟨state, input, output⟩

/-- Goes on with a value that is there. -/
def require {ε α : Type} (failure : ε → Failure) : Except ε α → Execution ι ω α
  | .ok value => pure value
  | .error cause => throw (failure cause)

def assign (config : Config) (name : String) (value : Word) : Execution ι ω Unit := do
  change (MachineState.setVariable name value)
  echo config ("(" ++ name ++ " = " ++ Decimal.ofWord value ++ ")\n")

def jumpIndex (program : Program) (label : String) (index : Nat) : Except Fault Nat :=
  match program.jumpTarget? label with
  | some target => .ok target
  | none => .error (.undefinedBranch label index)

/-- Carries out an effect and gives the index of the next instruction, or none at the end of
the run. -/
def perform (config : Config) (program : Program) (site : Site) :
    Effect → Execution ι ω (Option Nat)
  | .compute value => do
    change (MachineState.setAccumulator value)
    echo config ("(ACC = " ++ Decimal.ofWord value ++ ")\n")
    return some (site.index + 1)
  | .store name value => do
    assign config name value
    return some (site.index + 1)
  | .print operand value => do
    echo config ("(" ++ operand ++ " = " ++ Decimal.ofWord value ++ ")\n")
    emit (Decimal.ofWord value ++ "\n")
    return some (site.index + 1)
  | .branch taken label => do
    echo config (if taken then "(Branch? YES)\n" else "(Branch? NO)\n")
    if taken then
      return some (← require .fault (jumpIndex program label site.index))
    else
      return some (site.index + 1)
  | .read name => do
    onOutput OutputDevice.flush
    let value ← takeInput site
    assign config name (Word.reduce value)
    return some (site.index + 1)
  | .halt => do
    emit "\n"
    return none

def showLine (program : Program) (index : Nat) : Execution ι ω Unit := do
  let line ← require .crash (program.line? index)
  emit (line.getD "" ++ " ")

/-- Shows the line of an instruction before it is executed: always in a verbose run, else as the
prompt of a `READ`. -/
def announce (config : Config) (program : Program) (instruction : Instruction) (index : Nat) :
    Execution ι ω Unit :=
  if config.verbose ∨ instruction.opcode = .read then showLine program index else pure ()

def advance (next : Option Nat) : Execution ι ω StepOutcome := do
  change MachineState.retire
  match next with
  | some index =>
    change (MachineState.setCounter index)
    return .running
  | none => return .finished .halted

/-- Executes the instruction at the counter of a machine state, or finishes if there is none. -/
def execute (config : Config) (program : Program) (state : MachineState) :
    Execution ι ω StepOutcome :=
  match program.get? state.counter with
  | none => return .finished .ranOffEnd
  | some instruction =>
    let site := instruction.site state.counter
    match config.spentLimit? state.steps with
    | some limit => throw (.fault (.stepLimitExceeded limit site))
    | none => do
      announce config program instruction state.counter
      let effect ← require .fault (state.effect instruction state.counter)
      let next ← perform config program site effect
      advance next

def step (config : Config) (program : Program) : Execution ι ω StepOutcome := do
  execute config program (← get).state

/-- A step as nested cases, without its monadic form. -/
theorem step_eq (config : Config) (program : Program) (session : Session ι ω) :
    step config program session =
      match program.get? session.state.counter with
      | none => .ok (.finished .ranOffEnd) session
      | some instruction =>
        match config.spentLimit? session.state.steps with
        | some limit =>
          .error (.fault (.stepLimitExceeded limit (instruction.site session.state.counter)))
            session
        | none =>
          match announce config program instruction session.state.counter session with
          | .error failure session => .error failure session
          | .ok _ announced =>
            match session.state.effect instruction session.state.counter with
            | .error fault => .error (.fault fault) announced
            | .ok effect =>
              match perform config program (instruction.site session.state.counter) effect
                  announced with
              | .error failure session => .error failure session
              | .ok next session => advance next session := by
  have hGet : (get : Execution ι ω (Session ι ω)) session = .ok session session := rfl
  simp only [step, execute, bind, EStateM.bind, hGet]
  cases program.get? session.state.counter with
  | none => rfl
  | some instruction =>
    cases config.spentLimit? session.state.steps with
    | some limit => rfl
    | none =>
      simp only [EStateM.bind]
      cases announce config program instruction session.state.counter session with
      | error failure session => rfl
      | ok _ announced =>
        cases session.state.effect instruction session.state.counter with
        | error fault => rfl
        | ok effect =>
          simp only [require, pure, EStateM.pure]
          cases perform config program (instruction.site session.state.counter) effect
            announced <;> rfl

end Execution

end Accumulator
