import Accumulator.Proofs.Machine.Decisions
import Accumulator.Proofs.Machine.Steps
import Accumulator.Proofs.Program.Labels

/-! # Control flow of a built program

The checks made when a program is built are all that a run needs of its text: the counter stays
inside the program or just behind it, a taken branch lands on its label, and no fault of a run is
one of the program text.
-/

namespace Accumulator.Execution

set_option autoImplicit false

/-- The index is that of the only instruction with the label, which is no declaration. -/
structure LandsOn (program : Program) (label : String) (index : Nat) : Prop where
  carries : ∃ instruction, program.get? index = some instruction ∧
    instruction.label = some label ∧ instruction.opcode ≠ .declare
  only : ∀ other instruction, program.get? other = some instruction →
    instruction.label = some label → other = index

theorem landsOn_of_jumpTarget? {instructions : List Instruction} {program : Program}
    (hBuild : Program.build instructions = .ok program) {label : String} {target : Nat}
    (h : program.jumpTarget? label = some target) : LandsOn program label target := by
  obtain ⟨instruction, hFound, hLabel, hCode⟩ :=
    (Program.jumpTarget?_of_build hBuild label target).mp h
  refine ⟨⟨instruction, hFound, hLabel, hCode⟩, ?_⟩
  intro other found hOther hOtherLabel
  exact Program.index_eq_of_label_eq hBuild hOther hFound hOtherLabel hLabel

variable {ι ω : Type} [InputDevice ι] [OutputDevice ω] {config : Config} {program : Program}
  {instructions : List Instruction} {session after : Session ι ω}

/-- The counter is inside the program or just behind it. -/
def InProgram (program : Program) (state : MachineState) : Prop :=
  state.counter ≤ program.size

theorem Proceeds.next_le_size (hBuild : Program.build instructions = .ok program) {effect : Effect}
    {index next : Nat} (h : Proceeds program index effect (some next))
    (hIndex : index < program.size) : next ≤ program.size := by
  cases h with
  | print | pass => exact hIndex
  | jump hTarget =>
    obtain ⟨_, hFound, _⟩ := (landsOn_of_jumpTarget? hBuild hTarget).carries
    exact Nat.le_of_lt (Program.lt_size_of_get? hFound)

theorem inProgram_step (hBuild : Program.build instructions = .ok program)
    (session : Session ι ω) (h : InProgram program session.state) :
    InProgram program (final (step config program session)).state := by
  cases hStep : step config program session with
  | ok outcome after =>
    cases step_ok hStep with
    | ranOff => exact h
    | write hIssues => exact Program.lt_size_of_get? hIssues.fetched
    | proceed hIssues hProceeds =>
      exact hProceeds.next_le_size hBuild (Program.lt_size_of_get? hIssues.fetched)
    | halt => exact h
  | error failure after =>
    obtain ⟨hCounter, _⟩ := (step_error hStep).counter_eq_and_steps_eq
    exact (congrArg (· ≤ program.size) hCounter).mpr h

/-- The fault of a device, or one whose site is that of the instruction at the counter. -/
inductive ArisesAt (program : Program) (counter : Nat) : Fault → Prop
  | device (message : String) : ArisesAt program counter (.device message)
  | instruction {instruction : Instruction} {fault : Fault}
      (hFound : program.get? counter = some instruction)
      (hSite : fault.site? = some (instruction.site counter)) : ArisesAt program counter fault

theorem arisesAt_of_step (hBuild : Program.build instructions = .ok program)
    {fault : Fault} (h : step config program session = .error (.fault fault) after) :
    ArisesAt program after.state.counter fault := by
  have hFails := step_error h
  obtain ⟨hCounter, _⟩ := hFails.counter_eq_and_steps_eq
  rw [hCounter]
  cases hFails with
  | limit hFetched => exact .instruction hFetched rfl
  | announcement | echo => exact .device _
  | evaluation hFetched hEffect =>
    exact .instruction hFetched (MachineState.site?_of_effect_error hEffect)
  | refusal hIssues hRefuses =>
    cases hRefuses with
    | output => exact .device _
    | @input name _ _ cause =>
      cases cause with
      | exhausted | invalid => exact .instruction hIssues.fetched rfl
      | stream => exact .device _
    | jump _ hTarget =>
      cases MachineState.decides_of_effect hIssues.decided with
      | branch hBranch =>
        obtain ⟨target, hFound⟩ :=
          Program.exists_jumpTarget?_of_branch hBuild hIssues.fetched hBranch
        rw [hFound] at hTarget
        cases hTarget

theorem ArisesAt.isStatic_eq_false {counter : Nat} {fault : Fault}
    (h : ArisesAt program counter fault) : fault.isStatic = false := by
  cases h with
  | device => rfl
  | instruction _ hSite => exact Fault.isStatic_eq_false_of_site? hSite

theorem isBranch_of_taken {opcode : Opcode} {accumulator : Word}
    (h : opcode.taken accumulator = true) : opcode.isBranch = true := by
  cases opcode <;> first | rfl | cases h

theorem isBranch_eq_false_of_computes {opcode : Opcode} {accumulator value result : Word}
    (h : opcode.Computes accumulator value result) : opcode.isBranch = false := by
  cases h <;> rfl

theorem eq_branch_of_taken {state : MachineState} {instruction : Instruction} {index : Nat}
    {effect : Effect} (h : state.Decides instruction index effect)
    (hTaken : instruction.opcode.taken state.accumulator = true) :
    effect = .branch true instruction.target := by
  have hBranch := isBranch_of_taken hTaken
  cases h with
  | compute _ hComputes =>
    rw [isBranch_eq_false_of_computes hComputes] at hBranch
    cases hBranch
  | store hOpcode | declare hOpcode | print hOpcode | read hOpcode | halt hOpcode =>
    rw [hOpcode] at hBranch
    cases hBranch
  | branch _ hSame => rw [hSame, hTaken]

theorem landsOn_of_step (hBuild : Program.build instructions = .ok program)
    {instruction : Instruction} {outcome : StepOutcome}
    (hFound : program.get? session.state.counter = some instruction)
    (hTaken : instruction.opcode.taken session.state.accumulator = true)
    (h : step config program session = .ok outcome after) :
    outcome = .running ∧ LandsOn program instruction.target after.state.counter := by
  have hEffect : ∀ {found : Instruction} {effect : Effect} {announced : Session ι ω},
      Issues config program session found effect announced →
      effect = .branch true instruction.target := by
    intro found effect announced hIssues
    have hSame := hIssues.fetched.symm.trans hFound
    cases hSame
    exact eq_branch_of_taken (MachineState.decides_of_effect hIssues.decided) hTaken
  cases step_ok h with
  | ranOff hEnd =>
    rw [hFound] at hEnd
    cases hEnd
  | write hIssues hCommits =>
    cases hEffect hIssues
    cases hCommits
  | proceed hIssues hProceeds =>
    cases hEffect hIssues
    cases hProceeds with
    | jump hTarget => exact ⟨rfl, landsOn_of_jumpTarget? hBuild hTarget⟩
  | halt hIssues => cases hEffect hIssues

theorem opcode_of_decides_halt {state : MachineState} {instruction : Instruction} {index : Nat}
    (h : state.Decides instruction index .halt) : instruction.opcode = .halt := by
  cases h with
  | halt hOpcode => exact hOpcode

theorem step_finished {termination : Termination}
    (h : step config program session = .ok (.finished termination) after) :
    (termination = .halted ∧ ∃ instruction,
      program.get? after.state.counter = some instruction ∧ instruction.opcode = .halt) ∨
    (termination = .ranOffEnd ∧ program.get? after.state.counter = none) := by
  cases step_ok h with
  | ranOff hEnd => exact .inr ⟨rfl, hEnd⟩
  | halt hIssues =>
    exact .inl ⟨rfl, _, hIssues.fetched,
      opcode_of_decides_halt (MachineState.decides_of_effect hIssues.decided)⟩

/-- What a run of a built program never does wrong. -/
structure RunsSafely (config : Config) (program : Program) (session : Session ι ω) : Prop where
  counter_le : ∀ count,
    (final (steps config program count (restart session))).state.counter ≤ program.size
  lands : ∀ count reached instruction outcome next,
    steps config program count (restart session) = .ok .running reached →
    program.get? reached.state.counter = some instruction →
    instruction.opcode.taken reached.state.accumulator = true →
    step config program reached = .ok outcome next →
    outcome = .running ∧ LandsOn program instruction.target next.state.counter
  step_fault : ∀ count fault reached,
    steps config program count (restart session) = .error (.fault fault) reached →
    fault.isStatic = false
  run_fault : ∀ fuel fault reached,
    run fuel config program session = some (.error (.fault fault) reached) →
    fault.isStatic = false
  halted_iff : ∀ fuel outcome reached,
    run fuel config program session = some (.ok outcome reached) →
    (outcome.termination = .halted ↔ ∃ instruction,
      program.get? reached.state.counter = some instruction ∧ instruction.opcode = .halt)
  ranOffEnd_iff : ∀ fuel outcome reached,
    run fuel config program session = some (.ok outcome reached) →
    (outcome.termination = .ranOffEnd ↔ reached.state.counter = program.size)

theorem counter_le_of_steps (hBuild : Program.build instructions = .ok program) (config : Config)
    (count : Nat) (session : Session ι ω) :
    (final (steps config program count (restart session))).state.counter ≤ program.size :=
  final_steps (inProgram_step hBuild) count (restart session) (Nat.zero_le program.size)

theorem arisesAt_of_steps (hBuild : Program.build instructions = .ok program)
    {count : Nat} {fault : Fault}
    (h : steps config program count session = .error (.fault fault) after) :
    ArisesAt program after.state.counter fault := by
  obtain ⟨_, before, _, _, hLast⟩ := exists_last_step h nofun
  exact arisesAt_of_step hBuild hLast

theorem arisesAt_of_run (hBuild : Program.build instructions = .ok program) {fuel : Nat}
    {fault : Fault} (h : run fuel config program session = some (.error (.fault fault) after)) :
    ArisesAt program after.state.counter fault := by
  obtain ⟨reached, _, rfl, hSteps | ⟨_, message, _, hFault⟩⟩ := run_error h
  · have hArises := arisesAt_of_steps hBuild hSteps
    exact hArises
  · cases hFault
    exact .device message

theorem termination_of_run (hBuild : Program.build instructions = .ok program) {fuel : Nat}
    {outcome : RunOutcome} (h : run fuel config program session = some (.ok outcome after)) :
    (outcome.termination = .halted ∧ ∃ instruction,
      program.get? after.state.counter = some instruction ∧ instruction.opcode = .halt) ∨
    (outcome.termination = .ranOffEnd ∧ after.state.counter = program.size) := by
  obtain ⟨reached, output, hSteps, _, rfl⟩ := run_ok h
  obtain ⟨_, _, _, _, hLast⟩ := exists_last_step hSteps nofun
  rcases step_finished hLast with hHalted | ⟨hRanOff, hEnd⟩
  · exact .inl hHalted
  · have hLower : program.size ≤ reached.state.counter := Array.getElem?_eq_none_iff.mp hEnd
    have hUpper := counter_le_of_steps hBuild config fuel session
    rw [hSteps] at hUpper
    exact .inr ⟨hRanOff, Nat.le_antisymm hUpper hLower⟩

/-- Runs of built programs are safe under all settings and on all devices. -/
theorem runsSafely_of_build (hBuild : Program.build instructions = .ok program) (config : Config)
    (session : Session ι ω) : RunsSafely config program session where
  counter_le count := counter_le_of_steps hBuild config count session
  lands count reached instruction outcome next _ hFound hTaken hStep :=
    landsOn_of_step hBuild hFound hTaken hStep
  step_fault count fault reached hSteps := (arisesAt_of_steps hBuild hSteps).isStatic_eq_false
  run_fault fuel fault reached hRun := (arisesAt_of_run hBuild hRun).isStatic_eq_false
  halted_iff fuel outcome reached hRun := by
    rcases termination_of_run hBuild hRun with ⟨hHalted, hEnd⟩ | ⟨hRanOff, hCounter⟩
    · exact iff_of_true hHalted hEnd
    · apply iff_of_false
      · rw [hRanOff]
        nofun
      · rintro ⟨_, hFound, _⟩
        exact absurd hCounter (Nat.ne_of_lt (Program.lt_size_of_get? hFound))
  ranOffEnd_iff fuel outcome reached hRun := by
    rcases termination_of_run hBuild hRun with ⟨hHalted, _, hFound, _⟩ | ⟨hRanOff, hCounter⟩
    · apply iff_of_false
      · rw [hHalted]
        nofun
      · exact Nat.ne_of_lt (Program.lt_size_of_get? hFound)
    · exact iff_of_true hRanOff hCounter

/-- A branch without an operand, and the empty label that it jumps to. -/
def emptyLabelLoop : Program :=
  ⟨#[⟨"SUB =1", some "", .subtract, some "=1"⟩, ⟨"BL", none, .branchIfNegative, none⟩],
    (∅ : SymbolTable).insert "" ⟨0, .code⟩, 3⟩

theorem runsSafely_of_build_emptyLabelLoop :
    Program.build emptyLabelLoop.instructions.toList = .ok emptyLabelLoop ∧
      RunsSafely ⟨false, some 5⟩ emptyLabelLoop idleSession ∧
      ∃ reached next, steps ⟨false, some 5⟩ emptyLabelLoop 1 (restart idleSession) =
          .ok .running reached ∧
        step ⟨false, some 5⟩ emptyLabelLoop reached = .ok .running next ∧
        LandsOn emptyLabelLoop "" next.state.counter := by
  have hBuild : Program.build emptyLabelLoop.instructions.toList = .ok emptyLabelLoop := rfl
  have hSafe := runsSafely_of_build hBuild ⟨false, some 5⟩ idleSession
  refine ⟨hBuild, hSafe, _, _, rfl, rfl, ?_⟩
  exact (hSafe.lands 1 _ _ _ _ rfl rfl rfl rfl).2

end Accumulator.Execution
