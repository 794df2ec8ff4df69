import Accumulator.Proofs.Failure
import Accumulator.Proofs.Machine.Recording
import Accumulator.Proofs.Program.Paraphrase

/-! # Quoted lines

A step looks at the line of an instruction only to quote it in a fault. A program without its lines
takes the same steps, and its faults are those of the program without the lines that they quote.
To take the lines out of the faults commutes with doing one thing after another, so every stage of a
step has an equation of its own.
-/

namespace Accumulator

set_option autoImplicit false

def Instruction.bare (instruction : Instruction) : Instruction :=
  { instruction with source := "" }

theorem Instruction.SameFields.bare {left right : Instruction} (h : left.SameFields right) :
    left.bare = right.bare := by
  rw [Instruction.bare, Instruction.bare, h.label, h.opcode, h.operand]

def Site.bare (site : Site) : Site :=
  { site with text := "" }

@[simp]
theorem Site.bare_index (site : Site) : site.bare.index = site.index :=
  rfl

/-- The fault without the line that it quotes. -/
def Fault.bare : Fault → Fault
  | undefinedVariable name site => undefinedVariable name site.bare
  | invalidNumber literal site => invalidNumber literal site.bare
  | divisionByZero operand site => divisionByZero operand site.bare
  | inputExhausted site => inputExhausted site.bare
  | stepLimitExceeded limit site => stepLimitExceeded limit site.bare
  | fault => fault

/-- The failure without the line that it quotes. -/
def Failure.bare : Failure → Failure
  | fault cause => fault cause.bare
  | crash cause => crash cause

namespace Program

/-- The program without its lines. -/
def bare (program : Program) : Program :=
  { program with instructions := program.instructions.map Instruction.bare }

@[simp]
theorem get?_bare (program : Program) (index : Nat) :
    program.bare.get? index = (program.get? index).map Instruction.bare := by
  simp [bare, get?]

@[simp]
theorem line?_bare (program : Program) (index : Nat) :
    program.bare.line? index = program.line? index := by
  have hRow : program.bare.row? index = program.row? index := by
    simp only [row?, get?_bare]
    cases program.get? index <;> rfl
  rw [line?, line?, hRow]

theorem bare_eq_of_paraphrases {program copy : Program} (h : program.Paraphrases copy) :
    program.bare = copy.bare := by
  have hInstructions : program.instructions.map Instruction.bare =
      copy.instructions.map Instruction.bare := by
    apply Array.ext_getElem?
    intro index
    have hFound := h.get? index
    simp only [Array.getElem?_map]
    unfold get? at hFound
    generalize program.instructions[index]? = first, copy.instructions[index]? = second
      at hFound ⊢
    cases hFound with
    | none => rfl
    | some hFields => exact congrArg some hFields.bare
  rw [bare, bare, hInstructions, h.symbols, h.labelWidth]

end Program

namespace MachineState

variable (state : MachineState) (instruction : Instruction)

theorem literalValue_bare (literal : String) (site : Site) :
    (literalValue literal site).mapError Fault.bare = literalValue literal site.bare := by
  unfold literalValue
  split <;> rfl

theorem operandValue_bare (site : Site) :
    (state.operandValue instruction site).mapError Fault.bare =
      state.operandValue instruction.bare site.bare := by
  have hForm : instruction.bare.operandForm? = instruction.operandForm? := rfl
  unfold operandValue
  rw [hForm]
  split
  · exact literalValue_bare _ site
  · split <;> rfl
  · rfl

@[simp]
theorem effect_bare (index : Nat) :
    (state.effect instruction index).mapError Fault.bare = state.effect instruction.bare index := by
  have hOpcode : instruction.bare.opcode = instruction.opcode := rfl
  have hValue := state.operandValue_bare instruction (instruction.site index)
  unfold effect
  rw [hOpcode]
  cases instruction.opcode with
  | store | branchIfZero | branchIfPositive | branchIfNegative | branchAlways | read | halt => rfl
  | load | add | subtract | multiply =>
    dsimp only
    rw [computeWith, mapError_bind, hValue]
    rfl
  | print =>
    dsimp only
    rw [mapError_bind, hValue]
    rfl
  | divide =>
    dsimp only
    rw [mapError_bind, hValue]
    congr 1
    funext value
    split <;> rfl
  | declare =>
    dsimp only
    rw [mapError_bind, literalValue_bare]
    rfl

end MachineState

namespace Execution

variable {ι ω : Type} {α β : Type}

/-- The result with no line quoted in its failure. -/
def unquote : EStateM.Result Failure (Session ι ω) α → EStateM.Result Failure (Session ι ω) α
  | .ok value session => .ok value session
  | .error failure session => .error failure.bare session

/-- The computation with no line quoted in its failures. -/
def unquoted (action : Execution ι ω α) : Execution ι ω α :=
  fun session => unquote (action session)

@[simp]
theorem unquoted_bind (first : Execution ι ω α) (rest : α → Execution ι ω β) :
    unquoted (first >>= rest) = unquoted first >>= fun value => unquoted (rest value) := by
  funext session
  change unquote (EStateM.bind first rest session) = EStateM.bind (unquoted first) _ session
  simp only [EStateM.bind, unquoted]
  cases first session <;> rfl

@[simp]
theorem unquoted_map (f : α → β) (action : Execution ι ω α) :
    unquoted (f <$> action) = f <$> unquoted action :=
  unquoted_bind action _

@[simp]
theorem unquoted_pure (value : α) :
    unquoted (pure value : Execution ι ω α) = pure value :=
  rfl

@[simp]
theorem unquoted_require_fault (value : Except Fault α) :
    unquoted (require .fault value : Execution ι ω α) =
      require .fault (value.mapError Fault.bare) := by
  cases value <;> rfl

@[simp]
theorem unquoted_require_crash (value : Except Crash α) :
    unquoted (require .crash value : Execution ι ω α) = require .crash value := by
  cases value <;> rfl

@[simp]
theorem unquoted_change (update : MachineState → MachineState) :
    unquoted (change update : Execution ι ω Unit) = change update :=
  rfl

@[simp]
theorem unquoted_onOutput (action : EStateM String ω α) :
    unquoted (onOutput action : Execution ι ω α) = onOutput action := by
  funext session
  simp only [unquoted, onOutput]
  cases action session.output <;> rfl

section Devices

variable [InputDevice ι] [OutputDevice ω] (config : Config) (program : Program)

omit [OutputDevice ω] in
@[simp]
theorem unquoted_takeInput (site : Site) :
    unquoted (takeInput site : Execution ι ω Word) = takeInput site.bare := by
  funext session
  simp only [unquoted, takeInput]
  cases InputDevice.read session.input with
  | ok value input => rfl
  | error fault input => cases fault <;> rfl

omit [InputDevice ι] in
@[simp]
theorem unquoted_emit (text : String) :
    unquoted (emit text : Execution ι ω Unit) = emit text :=
  unquoted_onOutput _

omit [InputDevice ι] in
@[simp]
theorem unquoted_echo (text : String) :
    unquoted (echo config text : Execution ι ω Unit) = echo config text := by
  unfold echo traced
  split
  · exact unquoted_emit text
  · rfl

omit [InputDevice ι] in
@[simp]
theorem unquoted_showLine (index : Nat) :
    unquoted (showLine program index : Execution ι ω Unit) = showLine program.bare index := by
  simp only [showLine, unquoted_bind, unquoted_require_crash, unquoted_emit, Program.line?_bare]

omit [InputDevice ι] in
@[simp]
theorem unquoted_assign (name : String) (value : Word) :
    unquoted (assign config name value : Execution ι ω Unit) = assign config name value := by
  simp only [assign, unquoted_bind, unquoted_change, unquoted_echo]

@[simp]
theorem mapError_jumpIndex (label : String) (index : Nat) :
    (jumpIndex program label index).mapError Fault.bare = jumpIndex program.bare label index := by
  have hTarget : program.bare.jumpTarget? label = program.jumpTarget? label := rfl
  unfold jumpIndex
  rw [hTarget]
  split <;> rfl

@[simp]
theorem unquoted_perform (site : Site) (effect : Effect) :
    unquoted (perform config program site effect : Execution ι ω (Option Nat)) =
      perform config program.bare site.bare effect := by
  cases effect with
  | branch taken label =>
    cases taken with
    | false => simp [perform]
    | true => simp [perform]
  | compute | store | print | read | halt => simp [perform]

omit [InputDevice ι] in
@[simp]
theorem unquoted_announce (instruction : Instruction) (index : Nat) :
    unquoted (announce config program instruction index : Execution ι ω Unit) =
      announce config program.bare instruction.bare index := by
  unfold announce
  change unquoted (if config.verbose = true ∨ instruction.bare.opcode = .read then _ else _) = _
  split
  · exact unquoted_showLine program index
  · rfl

omit [InputDevice ι] [OutputDevice ω] in
@[simp]
theorem unquoted_advance (next : Option Nat) :
    unquoted (advance next : Execution ι ω StepOutcome) = advance next := by
  cases next <;> rfl

theorem unquoted_execute (state : MachineState) :
    unquoted (execute config program state : Execution ι ω StepOutcome) =
      execute config program.bare state := by
  simp only [execute, Program.get?_bare]
  cases program.get? state.counter with
  | none => rfl
  | some instruction =>
    simp only [Option.map_some]
    cases config.spentLimit? state.steps with
    | some limit => rfl
    | none =>
      simp only [unquoted_bind, unquoted_announce, unquoted_require_fault, MachineState.effect_bare,
        unquoted_perform, unquoted_advance]
      rfl

theorem unquoted_step :
    unquoted (step config program : Execution ι ω StepOutcome) = step config program.bare := by
  funext session
  exact congrFun (unquoted_execute config program session.state) session

theorem unquoted_steps (count : Nat) :
    unquoted (steps config program count : Execution ι ω StepOutcome) =
      steps config program.bare count := by
  induction count with
  | zero => rfl
  | succ count ih =>
    rw [steps, steps, unquoted_bind, unquoted_step]
    congr 1
    funext outcome
    cases outcome with
    | running => exact ih
    | finished termination => rfl

omit [InputDevice ι] in
theorem unquote_conclude (result : RunResult ι ω) :
    unquote (conclude result) = conclude (unquote result) := by
  cases result with
  | ok _ session =>
    simp only [conclude, unquote, onOutput]
    cases OutputDevice.flush session.output <;> rfl
  | error failure session =>
    cases failure with
    | crash crash => rfl
    | fault fault =>
      simp only [conclude, unquote, Failure.bare, onOutput]
      cases OutputDevice.flush session.output <;> rfl

theorem unquote_run (fuel : Nat) (session : Session ι ω) :
    (run fuel config program session).map unquote = run fuel config program.bare session := by
  rw [run, run, iterate_eq_steps, iterate_eq_steps, ← unquoted_steps, unquoted]
  cases steps config program fuel (restart session) with
  | error failure reached => exact congrArg some (unquote_conclude (.error failure reached))
  | ok outcome reached =>
    cases outcome with
    | running => rfl
    | finished termination => exact congrArg some (unquote_conclude (.ok _ reached))

theorem written_bare (count : Nat) (session : Session ι ω) :
    written config program.bare count session = written config program count session := by
  rw [written, written, ← unquoted_steps, unquoted]
  cases steps config program count (record session) <;> rfl

end Devices

end Execution

end Accumulator
