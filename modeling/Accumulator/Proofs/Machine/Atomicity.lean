import Accumulator.Proofs.Machine.Stages

/-! # Failing steps

A step that fails never moves the counter and never counts. It leaves the whole machine state as
it was, with one exception: in a verbose run a write comes before its echo, and is not taken back
when the output refuses the echo.
-/

namespace Accumulator.Execution

set_option autoImplicit false

variable {ι ω : Type} [InputDevice ι] [OutputDevice ω]

/-- The step writes something new to the machine state, and the output refuses the echo. -/
def LosesEcho (config : Config) (program : Program) (session : Session ι ω) : Prop :=
  config.verbose = true ∧ ∃ instruction effect announced committed line message output,
    Issues config program session instruction effect announced ∧
    Commits effect announced committed line ∧
    OutputDevice.write line committed.output = .error message output ∧
    committed.state ≠ session.state

theorem step_eq_of_refused_echo {config : Config} {program : Program}
    {session announced committed : Session ι ω} {instruction : Instruction} {effect : Effect}
    {line message : String} {output : ω}
    (hIssues : Issues config program session instruction effect announced)
    (hCommits : Commits effect announced committed line) (hVerbose : config.verbose = true)
    (hWrite : OutputDevice.write line committed.output = .error message output) :
    step config program session =
      .error (.fault (.device message)) ⟨committed.state, committed.input, output⟩ := by
  rw [step_of_issues hIssues]
  apply bind_eq_error_iff.mpr
  left
  exact (perform_eq_error_iff_of_commits hCommits).mpr ⟨hVerbose, message, output, hWrite, rfl, rfl⟩

/-- A failing step neither moves nor counts, and it leaves the rest of the machine state alone
exactly if it does not lose the echo of a write. -/
theorem step_error_atomic_iff {config : Config} {program : Program} {session after : Session ι ω}
    {failure : Failure} (h : step config program session = .error failure after) :
    after.state.counter = session.state.counter ∧ after.state.steps = session.state.steps ∧
      (after.state = session.state ↔ ¬ LosesEcho config program session) := by
  have hKept : after.state = session.state → ¬ LosesEcho config program session := by
    rintro hSame ⟨hVerbose, _, _, _, _, _, _, _, hIssues, hCommits, hWrite, hNew⟩
    rw [step_eq_of_refused_echo hIssues hCommits hVerbose hWrite] at h
    cases h
    exact hNew hSame
  have hFails := step_error h
  obtain ⟨hCounter, hSteps⟩ := hFails.counter_eq_and_steps_eq
  refine ⟨hCounter, hSteps, hKept, fun hNotLost => ?_⟩
  cases hFails with
  | limit | crash | announcement | evaluation | refusal => rfl
  | echo hIssues hCommits hVerbose hWrite =>
    apply Classical.byContradiction
    intro hNew
    exact hNotLost ⟨hVerbose, _, _, _, _, _, _, _, hIssues, hCommits, hWrite, hNew⟩

/-- The program of the single line `LOAD =5`. -/
def loadFive : Program :=
  ⟨#[⟨"LOAD =5", none, .load, some "=5"⟩], ∅, 3⟩

/-- A fresh machine whose output has room for the announcement of `loadFive` and no more. -/
def crampedSession : Session Script Sink :=
  ⟨{}, ⟨[]⟩, { capacity := some 14 }⟩

theorem step_error_atomic_iff_loadFive :
    ∃ failure after, step ⟨true, none⟩ loadFive crampedSession = .error failure after ∧
      after.state.counter = 0 ∧ after.state.steps = 0 ∧
      LosesEcho ⟨true, none⟩ loadFive crampedSession := by
  refine ⟨_, _, rfl, ?_⟩
  obtain ⟨hCounter, hSteps, hIff⟩ := step_error_atomic_iff
    (rfl : step ⟨true, none⟩ loadFive crampedSession = .error _ _)
  refine ⟨hCounter, hSteps, ?_⟩
  apply Classical.byContradiction
  intro hNotLost
  have hAccumulator := congrArg MachineState.accumulator (hIff.mpr hNotLost)
  exact absurd hAccumulator (by decide)

/-- A failing step of a verbose run can leave its result in the accumulator. -/
theorem exists_verbose_step_error_not_atomic :
    ∃ instructions program, Program.build instructions = .ok program ∧
      ∃ (config : Config) (session after : Session Script Sink) (fault : Fault),
        step config program session = .error (.fault fault) after ∧
        session.state.accumulator = 0 ∧ after.state.accumulator = 5 :=
  ⟨[⟨"LOAD =5", none, .load, some "=5"⟩], loadFive, rfl, ⟨true, none⟩, crampedSession, _, _, rfl,
    rfl, rfl⟩

end Accumulator.Execution
