import Accumulator.Proofs.Machine.Verbosity

/-! # Step limits

A limited run takes the steps of the unlimited one for as long as fewer instructions are executed
than the limit allows. After that it may still run off the end of the program, but an instruction
that is left to execute is refused before anything of it is shown.
-/

namespace Accumulator

set_option autoImplicit false

theorem MachineState.toNat_steps_retire {state : MachineState}
    (h : state.steps.toNat < maxSteps.toNat) :
    state.retire.steps.toNat = state.steps.toNat + 1 := by
  have hMax : maxSteps.toNat = 2 ^ 64 - 1 := rfl
  have hNew : state.steps ≠ maxSteps := by
    rintro hEq
    rw [hEq] at h
    exact Nat.lt_irrefl _ h
  rw [retire, if_neg hNew, UInt64.toNat_add]
  have hOne : (1 : UInt64).toNat = 1 := rfl
  omega

namespace Execution

variable {ι ω : Type} [InputDevice ι] [OutputDevice ω] {config : Config} {program : Program}
  {verbose : Bool} {limit : UInt64}

/-- The number of instructions that up to `count` steps execute, an `END` included. -/
def retired (config : Config) (program : Program) : Nat → Session ι ω → Nat
  | 0, _ => 0
  | count + 1, session =>
    match step config program session with
    | .ok .running next => retired config program count next + 1
    | .ok (.finished .halted) _ => 1
    | .ok (.finished .ranOffEnd) _ | .error _ _ => 0

theorem toNat_steps_of_running {session next : Session ι ω}
    (h : step config program session = .ok .running next)
    (hRoom : session.state.steps.toNat < MachineState.maxSteps.toNat) :
    next.state.steps.toNat = session.state.steps.toNat + 1 := by
  cases step_ok h with
  | write hIssues hCommits =>
    obtain ⟨_, rfl⟩ := hIssues.announced_eq
    obtain ⟨_, hSteps⟩ := hCommits.counter_eq_and_steps_eq
    have hRetired := MachineState.toNat_steps_retire (hSteps ▸ hRoom)
    rw [hSteps] at hRetired
    exact hRetired
  | proceed => exact MachineState.toNat_steps_retire hRoom

theorem toNat_steps_of_steps {count : Nat} {session reached : Session ι ω}
    (h : steps config program count session = .ok .running reached)
    (hRoom : session.state.steps.toNat + count ≤ MachineState.maxSteps.toNat) :
    reached.state.steps.toNat = session.state.steps.toNat + count := by
  induction count generalizing session with
  | zero =>
    cases h
    rfl
  | succ count ih =>
    obtain ⟨next, hStep, hSteps⟩ := running_of_steps_succ h
    have hNext := toNat_steps_of_running hStep (by omega)
    have hReached := ih hSteps (by omega)
    omega

/-! ## Below and at the limit -/

theorem step_of_unspent {session : Session ι ω} (h : session.state.steps < limit) :
    step ⟨verbose, some limit⟩ program session = step ⟨verbose, none⟩ program session := by
  have hUnspent : Config.spentLimit? ⟨verbose, some limit⟩ session.state.steps = none := by
    simpa [Config.spentLimit?] using h
  have hUnlimited : Config.spentLimit? ⟨verbose, none⟩ session.state.steps = none := rfl
  have hPerform : ∀ (site : Site) (effect : Effect),
      (perform ⟨verbose, some limit⟩ program site effect : Execution ι ω (Option Nat)) =
        perform ⟨verbose, none⟩ program site effect := by
    intro site effect
    cases effect <;> rfl
  rw [step_eq, step_eq, hUnspent, hUnlimited]
  simp only [hPerform]
  rfl

theorem step_of_spent {session : Session ι ω} {instruction : Instruction}
    (hFound : program.get? session.state.counter = some instruction)
    (h : limit ≤ session.state.steps) :
    step ⟨verbose, some limit⟩ program session =
      .error (.fault (.stepLimitExceeded limit (instruction.site session.state.counter)))
        session := by
  have hSpent : Config.spentLimit? ⟨verbose, some limit⟩ session.state.steps = some limit := by
    simpa [Config.spentLimit?] using h
  rw [step_eq, hFound, hSpent]

theorem step_of_end {session : Session ι ω} (h : program.get? session.state.counter = none) :
    step config program session = .ok (.finished .ranOffEnd) session := by
  rw [step_eq, h]

theorem toNat_le_maxSteps (steps : UInt64) : steps.toNat ≤ MachineState.maxSteps.toNat := by
  have hMax : MachineState.maxSteps.toNat = 2 ^ 64 - 1 := rfl
  have hBound := steps.toNat_lt
  omega

/-- Up to the limit the steps are those without a limit. -/
theorem steps_of_unspent (count : Nat) (session : Session ι ω)
    (h : session.state.steps.toNat + count ≤ limit.toNat) :
    steps ⟨verbose, some limit⟩ program count session =
      steps ⟨verbose, none⟩ program count session := by
  have hMax := toNat_le_maxSteps limit
  induction count generalizing session with
  | zero => rfl
  | succ count ih =>
    have hUnspent : session.state.steps < limit := by
      rw [UInt64.lt_iff_toNat_lt]
      omega
    rw [steps_succ, steps_succ, step_of_unspent hUnspent]
    split
    · rename_i next hStep
      have hNext := toNat_steps_of_running hStep (by omega)
      exact ih next (by omega)
    · rfl

/-! ## Runs that use up the limit -/

/-- Without a limit, as many instructions are executed as the limit allows, and another is left. -/
structure Exhausts (limit : UInt64) (verbose : Bool) (program : Program)
    (session reached : Session ι ω) (instruction : Instruction) : Prop where
  reaches : steps ⟨verbose, none⟩ program limit.toNat session = .ok .running reached
  left : program.get? reached.state.counter = some instruction

variable {session reached : Session ι ω} {instruction : Instruction}

theorem Exhausts.steps_eq (h : Exhausts limit verbose program session reached instruction)
    (hFresh : session.state.steps = 0) {fuel : Nat} (hFuel : limit.toNat < fuel) :
    steps ⟨verbose, some limit⟩ program fuel session =
      .error (.fault (.stepLimitExceeded limit (instruction.site reached.state.counter)))
        reached := by
  have hMax := toNat_le_maxSteps limit
  have hZero : session.state.steps.toNat = 0 := by
    rw [hFresh]
    rfl
  have hSpent : limit ≤ reached.state.steps := by
    have hCount := toNat_steps_of_steps h.reaches (by omega)
    rw [UInt64.le_iff_toNat_le]
    omega
  have hLimited :
      steps ⟨verbose, some limit⟩ program limit.toNat session = .ok .running reached := by
    rw [steps_of_unspent limit.toNat session (by omega)]
    exact h.reaches
  have hLast : steps ⟨verbose, some limit⟩ program (limit.toNat + 1) session =
      .error (.fault (.stepLimitExceeded limit (instruction.site reached.state.counter)))
        reached := by
    rw [steps_add, hLimited]
    dsimp only
    rw [steps_succ, step_of_spent h.left hSpent]
  exact steps_of_le hLast nofun hFuel

theorem retired_add {count : Nat}
    (h : steps config program count session = .ok .running reached) (rest : Nat) :
    retired config program (count + rest) session =
      count + retired config program rest reached := by
  induction count generalizing session with
  | zero =>
    cases h
    rw [Nat.zero_add, Nat.zero_add]
  | succ count ih =>
    obtain ⟨next, hStep, hSteps⟩ := running_of_steps_succ h
    have hRest := ih hSteps
    rw [Nat.succ_add, retired, hStep]
    dsimp only
    omega

theorem retired_le_of_finished {count : Nat} {termination : Termination}
    (h : steps config program count session = .ok (.finished termination) reached) :
    retired config program count session ≤ count := by
  induction count generalizing session with
  | zero => cases h
  | succ count ih =>
    rw [steps_succ] at h
    rw [retired]
    split at h
    · rename_i next hStep
      have hRest := ih h
      rw [hStep]
      exact Nat.succ_le_succ hRest
    · rw [h]
      cases termination with
      | halted => exact Nat.succ_le_succ (Nat.zero_le count)
      | ranOffEnd => exact Nat.zero_le (count + 1)

theorem retired_lt_of_error {count : Nat} {failure : Failure}
    (h : steps config program count session = .error failure reached) :
    retired config program count session < count := by
  induction count generalizing session with
  | zero => cases h
  | succ count ih =>
    rw [steps_succ] at h
    rw [retired]
    split at h
    · rename_i next hStep
      have hRest := ih h
      rw [hStep]
      exact Nat.succ_lt_succ hRest
    · rw [h]
      exact Nat.succ_pos count

/-- A row of steps that ends well has executed an instruction that was there at its start. -/
theorem retired_pos_of_finished {count : Nat} {after : Session ι ω} {termination : Termination}
    (hFound : program.get? session.state.counter = some instruction)
    (h : steps config program count session = .ok (.finished termination) after) :
    0 < retired config program count session := by
  cases count with
  | zero => cases h
  | succ count =>
    rw [steps_succ] at h
    rw [retired]
    split at h
    · rename_i next hStep
      rw [hStep]
      exact Nat.succ_pos _
    · rw [h]
      cases termination with
      | halted => exact Nat.one_pos
      | ranOffEnd =>
        cases step_ok h with
        | ranOff hEnd =>
          rw [hFound] at hEnd
          cases hEnd

/-! ## Limited and unlimited runs -/

/-- A run that has ended, and that has executed so many instructions, has not come to the limit:
it may have ended well at the limit, but has failed only below it. -/
def Fits (limit : UInt64) (executed : Nat) : RunResult ι ω → Prop
  | .ok _ _ => executed ≤ limit.toNat
  | .error _ _ => executed < limit.toNat

theorem Exhausts.not_fits (h : Exhausts limit verbose program (restart session) reached instruction)
    {fuel : Nat} {result : RunResult ι ω}
    (hRun : run fuel ⟨verbose, none⟩ program session = some result) :
    ¬ Fits limit (retired ⟨verbose, none⟩ program fuel (restart session)) result := by
  have hFuel : limit.toNat ≤ fuel := by
    apply Nat.le_of_not_lt
    intro hShort
    have hReaches := h.reaches
    rcases exists_steps_of_run hRun with ⟨_, _, hSteps, _⟩ | ⟨_, _, hSteps, _⟩
    all_goals
      rw [steps_of_le hSteps nofun (Nat.le_of_lt hShort)] at hReaches
      cases hReaches
  obtain ⟨rest, rfl⟩ := Nat.exists_eq_add_of_le hFuel
  rw [retired_add h.reaches]
  cases result with
  | error failure after =>
    intro hFits
    have hLess : limit.toNat + retired ⟨verbose, none⟩ program rest reached < limit.toNat := hFits
    omega
  | ok outcome after =>
    intro hFits
    have hMost : limit.toNat + retired ⟨verbose, none⟩ program rest reached ≤ limit.toNat := hFits
    obtain ⟨_, _, hSteps, _⟩ := run_ok hRun
    rw [steps_add, h.reaches] at hSteps
    have hMore := retired_pos_of_finished h.left hSteps
    omega

theorem exists_flush_of_steps {count : Nat}
    {result : EStateM.Result Failure (Session ι ω) StepOutcome} (hNever : NeverFails session.output)
    (h : steps config program count session = result) :
    ∃ output, onOutput OutputDevice.flush (final result) =
      .ok () ⟨(final result).state, (final result).input, output⟩ ∧
      OutputDevice.flush (final result).output = .ok () output := by
  subst h
  obtain ⟨output, hFlush, _⟩ := hNever.flush (received_written config program count hNever)
  exact ⟨output, onOutput_eq_ok_iff.mpr ⟨output, hFlush, rfl⟩, hFlush⟩

theorem exists_run_of_finished {count : Nat} {termination : Termination}
    (hNever : NeverFails session.output)
    (h : steps config program count (restart session) = .ok (.finished termination) reached) :
    ∃ output, run count config program session =
      some (.ok ⟨reached.state.steps, termination⟩ ⟨reached.state, reached.input, output⟩) := by
  have hStart : NeverFails (restart session).output := hNever
  obtain ⟨output, hFlush, _⟩ := exists_flush_of_steps hStart h
  refine ⟨output, ?_⟩
  rw [run_eq_of_steps, h]
  simp only [final] at hFlush
  simp only [conclude, hFlush]

theorem exists_run_of_error {count : Nat} {failure : Failure}
    (h : steps config program count (restart session) = .error failure reached) :
    ∃ output, run count config program session =
      some (.error failure ⟨reached.state, reached.input, output⟩) := by
  obtain ⟨output, hConclude⟩ := exists_conclude_error failure reached
  refine ⟨output, ?_⟩
  rw [run_eq_of_steps, h]
  exact congrArg some hConclude

theorem exists_run_of_fault {count : Nat} {fault : Fault} (hNever : NeverFails session.output)
    (h : steps config program count (restart session) = .error (.fault fault) reached) :
    ∃ output, OutputDevice.flush reached.output = .ok () output ∧
      run count config program session =
        some (.error (.fault fault) ⟨reached.state, reached.input, output⟩) := by
  have hStart : NeverFails (restart session).output := hNever
  obtain ⟨output, hFlush, hOutput⟩ := exists_flush_of_steps hStart h
  refine ⟨output, hOutput, ?_⟩
  rw [run_eq_of_steps, h]
  simp only [final] at hFlush
  simp only [conclude, hFlush]

/-- The unlimited run ends before it comes to the limit, and so does the limited run, or the limit
is used up while an instruction is left. -/
theorem fits_or_exhausts (limit : UInt64) (verbose : Bool) (program : Program)
    (session : Session ι ω) (hNever : NeverFails session.output) :
    (∃ fuel result, run fuel ⟨verbose, none⟩ program session = some result ∧
      Fits limit (retired ⟨verbose, none⟩ program fuel (restart session)) result ∧
      run (limit.toNat + 1) ⟨verbose, some limit⟩ program session = some result) ∨
    ∃ reached instruction,
      Exhausts limit verbose program (restart session) reached instruction := by
  have hSame : steps ⟨verbose, some limit⟩ program limit.toNat (restart session) =
      steps ⟨verbose, none⟩ program limit.toNat (restart session) := by
    have hFresh : (restart session).state.steps.toNat = 0 := rfl
    exact steps_of_unspent limit.toNat (restart session) (by omega)
  have hRunSame : run limit.toNat ⟨verbose, some limit⟩ program session =
      run limit.toNat ⟨verbose, none⟩ program session := by
    rw [run_eq_of_steps, run_eq_of_steps, hSame]
  rcases hSteps : steps ⟨verbose, none⟩ program limit.toNat (restart session) with
    ⟨outcome, reached⟩ | ⟨failure, reached⟩
  · cases outcome with
    | finished termination =>
      obtain ⟨output, hRun⟩ := exists_run_of_finished hNever hSteps
      refine .inl ⟨_, _, hRun, retired_le_of_finished hSteps, ?_⟩
      exact run_of_le (hRunSame.trans hRun) (Nat.le_succ _)
    | running =>
      cases hFound : program.get? reached.state.counter with
      | some instruction => exact .inr ⟨reached, instruction, hSteps, hFound⟩
      | none =>
        have hEnds : ∀ config : Config,
            steps config program limit.toNat (restart session) = .ok .running reached →
            steps config program (limit.toNat + 1) (restart session) =
              .ok (.finished .ranOffEnd) reached := by
          intro config hReaches
          rw [steps_add, hReaches]
          dsimp only
          rw [steps_succ, step_of_end hFound]
        have hLimited := hEnds _ (hSame.trans hSteps)
        have hUnlimited := hEnds _ hSteps
        have hNone : retired ⟨verbose, none⟩ program (limit.toNat + 1) (restart session) =
            limit.toNat := by
          have hLast : retired ⟨verbose, none⟩ program 1 reached = 0 := by
            rw [retired, step_of_end hFound]
          rw [retired_add hSteps, hLast, Nat.add_zero]
        obtain ⟨output, hRun⟩ := exists_run_of_finished hNever hUnlimited
        refine .inl ⟨_, _, hRun, Nat.le_of_eq hNone, ?_⟩
        rw [← hRun, run_eq_of_steps, run_eq_of_steps, hLimited, hUnlimited]
  · obtain ⟨output, hRun⟩ := exists_run_of_error hSteps
    refine .inl ⟨_, _, hRun, retired_lt_of_error hSteps, ?_⟩
    exact run_of_le (hRunSame.trans hRun) (Nat.le_succ _)

theorem Exhausts.run_eq (h : Exhausts limit verbose program (restart session) reached instruction)
    (hNever : NeverFails session.output) :
    ∃ output, OutputDevice.flush reached.output = .ok () output ∧
      run (limit.toNat + 1) ⟨verbose, some limit⟩ program session =
        some (.error (.fault (.stepLimitExceeded limit (instruction.site reached.state.counter)))
          ⟨reached.state, reached.input, output⟩) :=
  exists_run_of_fault hNever (h.steps_eq rfl (Nat.lt_succ_self _))

/-- Nothing of the refused instruction is written. -/
theorem Exhausts.written_eq
    (h : Exhausts limit verbose program (restart session) reached instruction) :
    written ⟨verbose, some limit⟩ program (limit.toNat + 1) (restart session) =
      written ⟨verbose, none⟩ program limit.toNat (restart session) := by
  have hCopies := copies_steps ⟨verbose, none⟩ program limit.toNat (restart session)
  rw [h.reaches] at hCopies
  rcases hRecorded : steps ⟨verbose, none⟩ program limit.toNat (record (restart session)) with
    ⟨outcome, recorded⟩ | ⟨failure, recorded⟩
  · rw [hRecorded] at hCopies
    cases hCopies with
    | ok _ hCopy =>
      have hExhausts : Exhausts limit verbose program (record (restart session)) recorded
          instruction := ⟨hRecorded, hCopy.state ▸ h.left⟩
      rw [written, written, hExhausts.steps_eq rfl (Nat.lt_succ_self _), hRecorded]
      rfl
  · rw [hRecorded] at hCopies
    cases hCopies

/-- Below the limit a limited machine crashes where one without a limit does, and at the limit it
does not get so far. -/
theorem crashes_limited_iff {count : Nat} {crash : Crash}
    (hReaches : steps ⟨verbose, none⟩ program count (restart session) = .ok .running reached)
    (hCount : count ≤ limit.toNat) :
    Crashes ⟨verbose, some limit⟩ program reached.state crash ↔
      count < limit.toNat ∧ Crashes ⟨verbose, none⟩ program reached.state crash := by
  have hMax := toNat_le_maxSteps limit
  have hFresh : (restart session).state.steps.toNat = 0 := rfl
  have hSteps := toNat_steps_of_steps hReaches (by omega)
  have hUnspent : Config.spentLimit? ⟨verbose, some limit⟩ reached.state.steps = none ↔
      count < limit.toNat := by
    have hBelow : Config.spentLimit? ⟨verbose, some limit⟩ reached.state.steps = none ↔
        reached.state.steps < limit := by
      simp [Config.spentLimit?]
    rw [hBelow, UInt64.lt_iff_toNat_lt, hSteps, hFresh, Nat.zero_add]
  constructor
  · intro h
    exact ⟨hUnspent.mp h.unspent, h.announces, rfl, h.line⟩
  · rintro ⟨hBelow, h⟩
    exact ⟨h.announces, hUnspent.mpr hBelow, h.line⟩

theorem limited_run_crashes_iff {crash : Crash} :
    run (limit.toNat + 1) ⟨verbose, some limit⟩ program session =
        some (.error (.crash crash) reached) ↔
      ∃ count, count < limit.toNat ∧
        steps ⟨verbose, none⟩ program count (restart session) = .ok .running reached ∧
        Crashes ⟨verbose, none⟩ program reached.state crash := by
  have hFresh : (restart session).state.steps.toNat = 0 := rfl
  have hSame : ∀ count, count ≤ limit.toNat →
      steps ⟨verbose, some limit⟩ program count (restart session) =
        steps ⟨verbose, none⟩ program count (restart session) :=
    fun count hCount => steps_of_unspent count (restart session) (by omega)
  rw [run_eq_crash_iff]
  constructor
  · rintro ⟨count, hCount, hReaches, hCrashes⟩
    rw [hSame count (Nat.le_of_lt_succ hCount)] at hReaches
    obtain ⟨hBelow, hUnlimited⟩ :=
      (crashes_limited_iff hReaches (Nat.le_of_lt_succ hCount)).mp hCrashes
    exact ⟨count, hBelow, hReaches, hUnlimited⟩
  · rintro ⟨count, hBelow, hReaches, hUnlimited⟩
    refine ⟨count, Nat.lt_succ_of_lt hBelow, ?_, ?_⟩
    · rw [hSame count (Nat.le_of_lt hBelow)]
      exact hReaches
    · exact (crashes_limited_iff hReaches (Nat.le_of_lt hBelow)).mpr ⟨hBelow, hUnlimited⟩

/-- A limited run takes at most one step more than the limit, and it returns unless it comes, below
the limit, to an instruction that it has to announce and whose line cannot be shown. It is the
unlimited run if that fits the limit. If not, it refuses the instruction that is left once the limit
is used up, and leaves everything as the unlimited run has it at that point. -/
theorem step_limit_exact (limit : UInt64) (verbose : Bool) (program : Program)
    (session : Session ι ω) (hNever : NeverFails session.output) :
    (∃ result, run (limit.toNat + 1) ⟨verbose, some limit⟩ program session = some result) ∧
    (∀ crash after,
      run (limit.toNat + 1) ⟨verbose, some limit⟩ program session =
          some (.error (.crash crash) after) ↔
        ∃ count, count < limit.toNat ∧
          steps ⟨verbose, none⟩ program count (restart session) = .ok .running after ∧
          Crashes ⟨verbose, none⟩ program after.state crash) ∧
    (∀ fuel result, run fuel ⟨verbose, none⟩ program session = some result →
      Fits limit (retired ⟨verbose, none⟩ program fuel (restart session)) result →
      run (limit.toNat + 1) ⟨verbose, some limit⟩ program session = some result) ∧
    ((∀ fuel result, run fuel ⟨verbose, none⟩ program session = some result →
        ¬ Fits limit (retired ⟨verbose, none⟩ program fuel (restart session)) result) →
      ∃ reached instruction output,
        steps ⟨verbose, none⟩ program limit.toNat (restart session) = .ok .running reached ∧
        retired ⟨verbose, none⟩ program limit.toNat (restart session) = limit.toNat ∧
        program.get? reached.state.counter = some instruction ∧
        OutputDevice.flush reached.output = .ok () output ∧
        run (limit.toNat + 1) ⟨verbose, some limit⟩ program session =
          some (.error (.fault (.stepLimitExceeded limit
            ⟨reached.state.counter, instruction.source⟩))
            ⟨reached.state, reached.input, output⟩) ∧
        written ⟨verbose, some limit⟩ program (limit.toNat + 1) (restart session) =
          written ⟨verbose, none⟩ program limit.toNat (restart session)) ∧
    (program.labelWidth ≤ Instruction.maxFill →
      ∀ state crash, ¬ Crashes ⟨verbose, none⟩ program state crash) := by
  have hShown : program.labelWidth ≤ Instruction.maxFill →
      ∀ state crash, ¬ Crashes ⟨verbose, none⟩ program state crash :=
    fun hWidth _ _ => not_crashes_of_labelWidth_le hWidth
  rcases fits_or_exhausts limit verbose program session hNever with
    ⟨fuel, result, hRun, hFits, hLimited⟩ | ⟨reached, instruction, hExhausts⟩
  · refine ⟨⟨result, hLimited⟩, fun _ _ => limited_run_crashes_iff, ?_, ?_, hShown⟩
    · intro other found hFound _
      rw [run_unique hFound hRun]
      exact hLimited
    · intro hNone
      exact absurd hFits (hNone fuel result hRun)
  · obtain ⟨output, hFlush, hRefused⟩ := hExhausts.run_eq hNever
    refine ⟨⟨_, hRefused⟩, fun _ _ => limited_run_crashes_iff, ?_, ?_, hShown⟩
    · intro fuel result hRun hFits
      exact absurd hFits (hExhausts.not_fits hRun)
    · intro _
      have hRetired := retired_add hExhausts.reaches 0
      exact ⟨reached, instruction, output, hExhausts.reaches, hRetired, hExhausts.left, hFlush,
        hRefused, hExhausts.written_eq⟩

/-- The `END` of `copyNumber` is its third instruction. -/
theorem step_limit_exact_copyNumber :
    NeverFails copySession.output ∧
      (∃ result, run 3 ⟨false, none⟩ copyNumber copySession = some result ∧
        run 4 ⟨false, some 3⟩ copyNumber copySession = some result) ∧
      ∃ reached output,
        steps ⟨false, none⟩ copyNumber 2 (restart copySession) = .ok .running reached ∧
        run 3 ⟨false, some 2⟩ copyNumber copySession =
          some (.error (.fault (.stepLimitExceeded 2 ⟨2, "Q END"⟩))
            ⟨reached.state, reached.input, output⟩) := by
  have hNever : NeverFails copySession.output := Sink.neverFails ByteArray.empty
  obtain ⟨outcome, after, hRun⟩ : ∃ outcome after,
      run 3 ⟨false, none⟩ copyNumber copySession = some (.ok outcome after) := ⟨_, _, rfl⟩
  have hRetired : ∀ more,
      retired ⟨false, none⟩ copyNumber (more + 3) (restart copySession) = 3 := fun _ => rfl
  obtain ⟨_, _, hFitting, _⟩ := step_limit_exact 3 false copyNumber copySession hNever
  obtain ⟨_, _, _, hExceeding, _⟩ := step_limit_exact 2 false copyNumber copySession hNever
  refine ⟨hNever, ⟨_, hRun, hFitting 3 _ hRun (Nat.le_of_eq (hRetired 0))⟩, ?_⟩
  have hNotFits : ∀ fuel result, run fuel ⟨false, none⟩ copyNumber copySession = some result →
      ¬ Fits 2 (retired ⟨false, none⟩ copyNumber fuel (restart copySession)) result := by
    intro fuel result hEnds hFits
    cases run_unique hEnds hRun
    match fuel with
    | 0 | 1 | 2 => cases hEnds
    | more + 3 =>
      rw [hRetired] at hFits
      exact absurd hFits (by decide : ¬ 3 ≤ 2)
  obtain ⟨reached, instruction, output, hReaches, _, hLeft, _, hRefused, _⟩ :=
    hExceeding hNotFits
  cases hReaches
  cases hLeft
  exact ⟨_, output, rfl, hRefused⟩

/-- A label of nearly as many bytes as the formatter fills keeps a limited run from returning. -/
theorem exists_limited_run_crashes :
    ∃ lines program, Program.ofLines lines = .ok program ∧ NeverFails idleSession.output ∧
      ∀ fuel, 0 < fuel → run fuel ⟨true, some 5⟩ program idleSession =
        some (.error (.crash ⟨65536⟩) (restart idleSession)) :=
  ⟨[Program.longLine 65533], _, Program.ofLines_longLine (by decide),
    Sink.neverFails ByteArray.empty,
    fun _ hFuel => run_longProgram (by decide) hFuel rfl idleSession⟩

end Execution

end Accumulator
