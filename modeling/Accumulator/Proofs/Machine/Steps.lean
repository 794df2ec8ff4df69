import Accumulator.Machine.Run
import Accumulator.Proofs.Machine.Stages

/-! # Steps in a row

A run is a row of steps from the zero state, followed by a flush. What every step preserves
holds wherever a row of steps ends, and a row that stops early does so at its last step.
-/

namespace Accumulator.Execution

set_option autoImplicit false

variable {ι ω : Type} [InputDevice ι] [OutputDevice ω]

/-- Up to `count` steps, fewer if the program ends or fails. -/
def steps (config : Config) (program : Program) : Nat → Execution ι ω StepOutcome
  | 0 => return .running
  | count + 1 => do
    match ← step config program with
    | .running => steps config program count
    | .finished termination => return .finished termination

variable {config : Config} {program : Program}

theorem steps_succ (count : Nat) (session : Session ι ω) :
    steps config program (count + 1) session =
      match step config program session with
      | .ok .running next => steps config program count next
      | stopped => stopped := by
  change EStateM.bind _ _ session = _
  unfold EStateM.bind
  split
  · rename_i outcome next hStep
    rw [hStep]
    cases outcome <;> rfl
  · rename_i failure next hStep
    rw [hStep]

theorem iterate_eq_steps (fuel : Nat) (session : Session ι ω) :
    iterate config program fuel session =
      match steps config program fuel session with
      | .ok .running _ => none
      | .ok (.finished termination) reached => some (.ok ⟨reached.state.steps, termination⟩ reached)
      | .error failure reached => some (.error failure reached) := by
  induction fuel generalizing session with
  | zero => rfl
  | succ fuel ih =>
    rw [iterate, steps_succ]
    cases step config program session with
    | error failure next => rfl
    | ok outcome next =>
      cases outcome with
      | running => exact ih next
      | finished termination => rfl

theorem final_steps {P : MachineState → Prop}
    (hStep : ∀ session : Session ι ω, P session.state →
      P (final (step config program session)).state)
    (count : Nat) (session : Session ι ω) (hStart : P session.state) :
    P (final (steps config program count session)).state := by
  induction count generalizing session with
  | zero => exact hStart
  | succ count ih =>
    have hNext := hStep session hStart
    rw [steps_succ]
    split
    · rename_i next hRunning
      rw [hRunning] at hNext
      exact ih next hNext
    · exact hNext

/-- A row of steps that stops does so at a step from a session reached by running steps. -/
theorem exists_last_step {count : Nat} {session : Session ι ω}
    {result : EStateM.Result Failure (Session ι ω) StepOutcome}
    (h : steps config program count session = result)
    (hStops : ∀ reached, result ≠ .ok .running reached) :
    ∃ earlier before, earlier < count ∧
      steps config program earlier session = .ok .running before ∧
      step config program before = result := by
  subst h
  induction count generalizing session with
  | zero => exact absurd rfl (hStops session)
  | succ count ih =>
    rw [steps_succ] at hStops ⊢
    split at hStops
    · rename_i next hRunning
      obtain ⟨earlier, before, hEarlier, hReaches, hLast⟩ := ih hStops
      refine ⟨earlier + 1, before, Nat.succ_lt_succ hEarlier, ?_, hLast⟩
      rw [steps_succ, hRunning]
      exact hReaches
    · exact ⟨0, session, Nat.succ_pos count, rfl, rfl⟩

theorem steps_add (first rest : Nat) (session : Session ι ω) :
    steps config program (first + rest) session =
      match steps config program first session with
      | .ok .running reached => steps config program rest reached
      | stopped => stopped := by
  induction first generalizing session with
  | zero =>
    rw [Nat.zero_add]
    rfl
  | succ first ih =>
    rw [Nat.succ_add, steps_succ, steps_succ]
    cases step config program session with
    | error failure next => rfl
    | ok outcome next =>
      cases outcome with
      | running => exact ih next
      | finished termination => rfl

/-- A row in which every step goes on can be cut anywhere. -/
theorem running_of_steps_add {first rest : Nat} {session reached : Session ι ω}
    (h : steps config program (first + rest) session = .ok .running reached) :
    ∃ middle, steps config program first session = .ok .running middle ∧
      steps config program rest middle = .ok .running reached := by
  rw [steps_add] at h
  split at h
  · rename_i middle hFirst
    exact ⟨middle, hFirst, h⟩
  · rename_i hStops
    exact absurd h (hStops reached)

theorem running_of_steps_succ {count : Nat} {session reached : Session ι ω}
    (h : steps config program (count + 1) session = .ok .running reached) :
    ∃ next, step config program session = .ok .running next ∧
      steps config program count next = .ok .running reached := by
  rw [steps_succ] at h
  split at h
  · rename_i next hStep
    exact ⟨next, hStep, h⟩
  · rename_i hStops
    exact absurd h (hStops reached)

/-- Steps that were not needed to stop change nothing. -/
theorem steps_of_le {count more : Nat} {session : Session ι ω}
    {result : EStateM.Result Failure (Session ι ω) StepOutcome}
    (h : steps config program count session = result)
    (hStops : ∀ reached, result ≠ .ok .running reached) (hLe : count ≤ more) :
    steps config program more session = result := by
  obtain ⟨rest, rfl⟩ := Nat.exists_eq_add_of_le hLe
  rw [steps_add, h]
  split
  · rename_i reached
    exact absurd rfl (hStops reached)
  · rfl

/-- A row of steps crashes exactly if running steps lead to a machine that crashes. -/
theorem steps_eq_crash_iff {count : Nat} {session after : Session ι ω} {crash : Crash} :
    steps config program count session = .error (.crash crash) after ↔
      ∃ earlier, earlier < count ∧ steps config program earlier session = .ok .running after ∧
        Crashes config program after.state crash := by
  constructor
  · intro h
    obtain ⟨earlier, before, hEarlier, hReaches, hLast⟩ := exists_last_step h nofun
    obtain ⟨hCrashes, rfl⟩ := step_eq_crash_iff.mp hLast
    exact ⟨earlier, hEarlier, hReaches, hCrashes⟩
  · rintro ⟨earlier, hEarlier, hReaches, hCrashes⟩
    have hLast : steps config program (earlier + 1) session = .error (.crash crash) after := by
      rw [steps_add, hReaches]
      dsimp only
      rw [steps_succ, step_eq_crash_iff.mpr ⟨hCrashes, rfl⟩]
    exact steps_of_le hLast nofun hEarlier

/-! ## Runs -/

omit [InputDevice ι] in
theorem exists_conclude_error (failure : Failure) (session : Session ι ω) :
    ∃ output, conclude (.error failure session) =
      .error failure ⟨session.state, session.input, output⟩ := by
  cases failure with
  | crash crash => exact ⟨session.output, rfl⟩
  | fault fault =>
    simp only [conclude]
    cases hFlush : onOutput OutputDevice.flush session with
    | ok _ flushed =>
      obtain ⟨output, _, rfl⟩ := onOutput_eq_ok_iff.mp hFlush
      exact ⟨output, rfl⟩
    | error _ flushed =>
      obtain ⟨_, output, _, _, rfl⟩ := onOutput_eq_error_iff.mp hFlush
      exact ⟨output, rfl⟩

theorem exists_steps_of_run {fuel : Nat} {session : Session ι ω} {result : RunResult ι ω}
    (h : run fuel config program session = some result) :
    (∃ termination reached,
      steps config program fuel (restart session) = .ok (.finished termination) reached ∧
      conclude (.ok ⟨reached.state.steps, termination⟩ reached) = result) ∨
    (∃ failure reached, steps config program fuel (restart session) = .error failure reached ∧
      conclude (.error failure reached) = result) := by
  rw [run, iterate_eq_steps] at h
  obtain ⟨stopped, hStopped, rfl⟩ := Option.map_eq_some_iff.mp h
  split at hStopped
  · cases hStopped
  · rename_i termination reached hSteps
    cases hStopped
    exact .inl ⟨termination, reached, hSteps, rfl⟩
  · rename_i failure reached hSteps
    cases hStopped
    exact .inr ⟨failure, reached, hSteps, rfl⟩

theorem run_eq_of_steps (count : Nat) (session : Session ι ω) :
    run count config program session =
      match steps config program count (restart session) with
      | .ok .running _ => none
      | .ok (.finished termination) reached =>
        some (conclude (.ok ⟨reached.state.steps, termination⟩ reached))
      | .error failure reached => some (conclude (.error failure reached)) := by
  rw [run, iterate_eq_steps]
  rcases steps config program count (restart session) with ⟨outcome, reached⟩ | ⟨failure, reached⟩
  · cases outcome <;> rfl
  · rfl

theorem run_of_le {fuel more : Nat} {session : Session ι ω} {result : RunResult ι ω}
    (h : run fuel config program session = some result) (hLe : fuel ≤ more) :
    run more config program session = some result := by
  rw [run_eq_of_steps] at h ⊢
  rcases hSteps : steps config program fuel (restart session) with
    ⟨outcome, reached⟩ | ⟨failure, reached⟩
  · cases outcome with
    | running =>
      rw [hSteps] at h
      cases h
    | finished termination => rwa [steps_of_le hSteps nofun hLe, ← hSteps]
  · rwa [steps_of_le hSteps nofun hLe, ← hSteps]

theorem run_unique {fuel other : Nat} {session : Session ι ω} {left right : RunResult ι ω}
    (hLeft : run fuel config program session = some left)
    (hRight : run other config program session = some right) : left = right := by
  have hFirst := run_of_le hLeft (Nat.le_max_left fuel other)
  have hSecond := run_of_le hRight (Nat.le_max_right fuel other)
  exact Option.some.inj (hFirst.symm.trans hSecond)

theorem run_ok {fuel : Nat} {session after : Session ι ω} {outcome : RunOutcome}
    (h : run fuel config program session = some (.ok outcome after)) :
    ∃ reached output,
      steps config program fuel (restart session) = .ok (.finished outcome.termination) reached ∧
      outcome.steps = reached.state.steps ∧ after = ⟨reached.state, reached.input, output⟩ := by
  rcases exists_steps_of_run h with
    ⟨termination, reached, hSteps, hConclude⟩ | ⟨failure, reached, _, hConclude⟩
  · simp only [conclude] at hConclude
    split at hConclude
    · rename_i hFlush
      obtain ⟨output, _, rfl⟩ := onOutput_eq_ok_iff.mp hFlush
      cases hConclude
      exact ⟨reached, output, hSteps, rfl, rfl⟩
    · cases hConclude
  · obtain ⟨_, hError⟩ := exists_conclude_error failure reached
    rw [hError] at hConclude
    cases hConclude

theorem run_error {fuel : Nat} {session after : Session ι ω} {failure : Failure}
    (h : run fuel config program session = some (.error failure after)) :
    ∃ reached output, after = ⟨reached.state, reached.input, output⟩ ∧
      (steps config program fuel (restart session) = .error failure reached ∨
        ∃ termination message,
          steps config program fuel (restart session) = .ok (.finished termination) reached ∧
          failure = .fault (.device message)) := by
  rcases exists_steps_of_run h with
    ⟨termination, reached, hSteps, hConclude⟩ | ⟨cause, reached, hSteps, hConclude⟩
  · simp only [conclude] at hConclude
    split at hConclude
    · cases hConclude
    · rename_i hFlush
      obtain ⟨message, output, _, rfl, rfl⟩ := onOutput_eq_error_iff.mp hFlush
      cases hConclude
      exact ⟨reached, output, rfl, .inr ⟨termination, message, hSteps, rfl⟩⟩
  · obtain ⟨output, hError⟩ := exists_conclude_error cause reached
    rw [hError] at hConclude
    cases hConclude
    exact ⟨reached, output, rfl, .inl hSteps⟩

/-- A run crashes exactly if its steps lead to a machine that crashes, and leaves it there. -/
theorem run_eq_crash_iff {fuel : Nat} {session after : Session ι ω} {crash : Crash} :
    run fuel config program session = some (.error (.crash crash) after) ↔
      ∃ earlier, earlier < fuel ∧
        steps config program earlier (restart session) = .ok .running after ∧
        Crashes config program after.state crash := by
  rw [← steps_eq_crash_iff]
  constructor
  · intro h
    rcases exists_steps_of_run h with
      ⟨termination, reached, _, hConclude⟩ | ⟨failure, reached, hSteps, hConclude⟩
    · simp only [conclude] at hConclude
      split at hConclude
      · cases hConclude
      · rename_i hFlush
        obtain ⟨_, _, _, rfl, _⟩ := onOutput_eq_error_iff.mp hFlush
        cases hConclude
    · cases failure with
      | crash found =>
        cases hConclude
        exact hSteps
      | fault fault =>
        obtain ⟨_, hError⟩ := exists_conclude_error (.fault fault) reached
        rw [hError] at hConclude
        cases hConclude
  · intro hSteps
    rw [run_eq_of_steps, hSteps]
    rfl

/-- A run leaves the state that its steps have led to. -/
theorem state_of_run {fuel : Nat} {session : Session ι ω} {result : RunResult ι ω}
    (h : run fuel config program session = some result) :
    (final result).state = (final (steps config program fuel (restart session))).state := by
  cases result with
  | ok outcome after =>
    obtain ⟨reached, _, hSteps, _, rfl⟩ := run_ok h
    rw [hSteps]
    rfl
  | error failure after =>
    obtain ⟨reached, _, rfl, hSteps | ⟨_, _, hSteps, _⟩⟩ := run_error h
    all_goals
      rw [hSteps]
      rfl

theorem final_run {P : MachineState → Prop} (hZero : P {})
    (hStep : ∀ session : Session ι ω, P session.state →
      P (final (step config program session)).state)
    {fuel : Nat} {session : Session ι ω} {result : RunResult ι ω}
    (h : run fuel config program session = some result) : P (final result).state := by
  rw [state_of_run h]
  exact final_steps hStep fuel (restart session) hZero

/-- A fresh machine without input and with room for all output. -/
def idleSession : Session Script Sink :=
  ⟨{}, ⟨[]⟩, {}⟩

end Accumulator.Execution
