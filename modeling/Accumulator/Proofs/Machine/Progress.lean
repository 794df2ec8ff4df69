import Accumulator.Proofs.Machine.History
import Accumulator.Proofs.Machine.Verbosity
import Accumulator.Proofs.Program.Labels
import Mathlib.Data.List.Perm.Subperm

/-! # Programs without backward branches

If no branch jumps backward, every executed instruction that does not end the run leaves the counter
behind itself. So the instructions of a run stand in the order of the program, none is executed
twice, and the run ends within the steps that it takes to come to the end of the program. It need
not return, though: it may come to a line that it has to show and cannot.
-/

namespace Accumulator

set_option autoImplicit false

/-- Wherever a branch jumps to, it is a later instruction. -/
def Program.BranchesForward (program : Program) : Prop :=
  ∀ index < program.size, ∀ instruction ∈ program.get? index,
    instruction.opcode.isBranch = true →
      ∀ target ∈ program.jumpTarget? instruction.target, index < target

instance (program : Program) : Decidable program.BranchesForward :=
  inferInstanceAs (Decidable (∀ index < program.size, ∀ instruction ∈ program.get? index,
    instruction.opcode.isBranch = true →
      ∀ target ∈ program.jumpTarget? instruction.target, index < target))

theorem Program.branchesForward_longProgram (count : Nat) :
    (longProgram count).BranchesForward := by
  intro index _ instruction hFound hBranch
  have hMember : instruction ∈ (longProgram count).instructions := Array.mem_of_getElem? hFound
  have hOnly := Array.mem_singleton.mp hMember
  rw [hOnly] at hBranch
  cases hBranch

/-- Counting stops at the greatest number, but does not wrap. -/
theorem MachineState.toNat_steps_retire_eq_min {state : MachineState} {count : Nat}
    (h : state.steps.toNat = min count maxSteps.toNat) :
    state.retire.steps.toNat = min (count + 1) maxSteps.toNat := by
  have hMax : maxSteps.toNat = 2 ^ 64 - 1 := rfl
  by_cases hFull : state.steps = maxSteps
  · rw [hFull] at h
    rw [retire, if_pos hFull]
    change maxSteps.toNat = _
    omega
  · have hLess : state.steps.toNat ≠ maxSteps.toNat := fun hEq => hFull (UInt64.toNat_inj.mp hEq)
    have hOne : (1 : UInt64).toNat = 1 := rfl
    rw [retire, if_neg hFull, UInt64.toNat_add]
    omega

namespace Execution

variable {ι ω : Type}

/-- The history goes through the program in its order and has not come to the counter yet. -/
structure Ascends (program : Program) (entries : List (Executed ι)) (outcome : StepOutcome)
    (state : MachineState) : Prop where
  ascending : entries.Pairwise fun earlier later => earlier.before.counter < later.before.counter
  fetched : ∀ entry ∈ entries, program.get? entry.before.counter = some entry.instruction
  behind : outcome = .running → ∀ entry ∈ entries, entry.before.counter < state.counter
  counted : state.steps.toNat = min entries.length MachineState.maxSteps.toNat

namespace Ascends

variable {program : Program} {entries : List (Executed ι)} {outcome : StepOutcome}
  {state : MachineState}

theorem nodup (h : Ascends program entries outcome state) :
    (entries.map (·.before.counter)).Nodup := by
  refine List.pairwise_map.mpr (h.ascending.imp ?_)
  intro earlier later hLess
  exact Nat.ne_of_lt hLess

theorem length_le (h : Ascends program entries outcome state) :
    entries.length ≤ program.size := by
  have hInside : entries.map (·.before.counter) ⊆ List.range program.size := by
    intro index hIndex
    obtain ⟨entry, hEntry, rfl⟩ := List.mem_map.mp hIndex
    exact List.mem_range.mpr (Program.lt_size_of_get? (h.fetched entry hEntry))
  simpa using (h.nodup.subperm hInside).length_le

end Ascends

variable [InputDevice ι] [OutputDevice ω] {config : Config} {program : Program}
  {session next reached : Session ι ω} {outcome : StepOutcome} {instruction : Instruction}

/-! ## The counter -/

theorem counter_lt_of_running (hForward : program.BranchesForward)
    (h : step config program session = .ok .running next) :
    session.state.counter < next.state.counter := by
  cases step_ok h with
  | write => exact Nat.lt_succ_self _
  | proceed hIssues hProceeds =>
    cases hProceeds with
    | print | pass => exact Nat.lt_succ_self _
    | jump hTarget =>
      cases MachineState.decides_of_effect hIssues.decided with
      | branch hBranch =>
        have hSize := Program.lt_size_of_get? hIssues.fetched
        exact hForward _ hSize _ hIssues.fetched hBranch _ hTarget

theorem lt_size_of_running (h : step config program session = .ok .running next) :
    session.state.counter < program.size := by
  cases step_ok h with
  | write hIssues | proceed hIssues => exact Program.lt_size_of_get? hIssues.fetched

theorem counter_add_le_of_steps (hForward : program.BranchesForward) {count : Nat}
    (h : steps config program count session = .ok .running reached) :
    session.state.counter + count ≤ reached.state.counter := by
  induction count generalizing session with
  | zero =>
    cases h
    exact Nat.le_refl _
  | succ count ih =>
    obtain ⟨next, hStep, hSteps⟩ := running_of_steps_succ h
    have hNext := counter_lt_of_running hForward hStep
    have hRest := ih hSteps
    omega

theorem counter_lt_of_steps (hForward : program.BranchesForward) {earlier later : Nat}
    (hLess : earlier < later) {before : Session ι ω}
    (hEarlier : steps config program earlier session = .ok .running before)
    (hLater : steps config program later session = .ok .running reached) :
    before.state.counter < reached.state.counter := by
  obtain ⟨rest, rfl⟩ := Nat.exists_eq_add_of_lt hLess
  rw [Nat.add_assoc, steps_add, hEarlier] at hLater
  have hCounter := counter_add_le_of_steps hForward hLater
  omega

theorem count_le_size_of_steps (hForward : program.BranchesForward) {count : Nat}
    (h : steps config program count session = .ok .running reached) : count ≤ program.size := by
  cases count with
  | zero => exact Nat.zero_le program.size
  | succ count =>
    obtain ⟨before, hBefore, hLast⟩ := running_of_steps_add h
    obtain ⟨_, hStep, _⟩ := running_of_steps_succ hLast
    have hCounter := counter_add_le_of_steps hForward hBefore
    have hSize := lt_size_of_running hStep
    omega

theorem exists_run_of_branchesForward (hForward : program.BranchesForward) (config : Config)
    (session : Session ι ω) :
    ∃ result, run (program.size + 1) config program session = some result := by
  rw [run_eq_of_steps]
  rcases hSteps : steps config program (program.size + 1) (restart session) with
    ⟨outcome, reached⟩ | ⟨failure, reached⟩
  · cases outcome with
    | running => exact absurd (count_le_size_of_steps hForward hSteps) (Nat.not_succ_le_self _)
    | finished termination => exact ⟨_, rfl⟩
  · exact ⟨_, rfl⟩

/-! ## The executed instructions -/

theorem steps_eq_retire_of_ok (hFound : program.get? session.state.counter = some instruction)
    (h : step config program session = .ok outcome next) :
    next.state.steps = session.state.retire.steps := by
  cases step_ok h with
  | ranOff hEnd =>
    rw [hFound] at hEnd
    cases hEnd
  | write hIssues hCommits =>
    obtain ⟨_, rfl⟩ := hIssues.announced_eq
    obtain ⟨_, hSteps⟩ := hCommits.counter_eq_and_steps_eq
    simp only [MachineState.retire, MachineState.setCounter, hSteps]
  | proceed | halt => rfl

theorem Ascends.concat (hForward : program.BranchesForward) {entries : List (Executed ι)}
    (h : Ascends program entries .running session.state)
    (hFound : program.get? session.state.counter = some instruction)
    (hStep : step config program session = .ok outcome next) :
    Ascends program (entries ++ [.ofSessions instruction session next]) outcome next.state where
  ascending := by
    refine List.pairwise_append.mpr ⟨h.ascending, List.pairwise_singleton _ _, ?_⟩
    intro earlier hEarlier later hLater
    cases List.mem_singleton.mp hLater
    exact h.behind rfl earlier hEarlier
  fetched := by
    intro entry hEntry
    rcases List.mem_append.mp hEntry with hOld | hNew
    · exact h.fetched entry hOld
    · cases List.mem_singleton.mp hNew
      exact hFound
  behind := by
    rintro rfl entry hEntry
    have hCounter := counter_lt_of_running hForward hStep
    rcases List.mem_append.mp hEntry with hOld | hNew
    · exact Nat.lt_trans (h.behind rfl entry hOld) hCounter
    · cases List.mem_singleton.mp hNew
      exact hCounter
  counted := by
    rw [steps_eq_retire_of_ok hFound hStep, List.length_append, List.length_singleton]
    exact MachineState.toNat_steps_retire_eq_min h.counted

theorem ascends_of_steps (hForward : program.BranchesForward) {count : Nat}
    (h : steps config program count (restart session) = .ok outcome reached) :
    Ascends program (history config program count (restart session)) outcome reached.state := by
  refine history_induction
    (P := fun entries outcome reached => Ascends program entries outcome reached.state) ?_ ?_ ?_ h
  · intro entries before instruction outcome next hAscends hFound hStep
    exact hAscends.concat hForward hFound hStep
  · intro entries before hAscends
    exact ⟨hAscends.ascending, hAscends.fetched, nofun, hAscends.counted⟩
  · refine ⟨.nil, ?_, ?_, rfl⟩
    · intro entry hEntry
      cases hEntry
    · intro _ entry hEntry
      cases hEntry

theorem exists_ascends (hForward : program.BranchesForward) (config : Config) (count : Nat)
    (session : Session ι ω) :
    ∃ outcome, Ascends program (history config program count (restart session)) outcome
      (final (steps config program count (restart session))).state := by
  cases hSteps : steps config program count (restart session) with
  | ok outcome reached => exact ⟨outcome, ascends_of_steps hForward hSteps⟩
  | error failure after =>
    obtain ⟨earlier, before, hEarlier, hLast, hHistory⟩ := exists_failing_step hSteps
    obtain ⟨hCounter, hCount⟩ := (step_error hLast).counter_eq_and_steps_eq
    have hBefore := ascends_of_steps hForward hEarlier
    rw [hHistory, final]
    refine ⟨.running, hBefore.ascending, hBefore.fetched, ?_, ?_⟩
    · rw [hCounter]
      exact hBefore.behind
    · rw [hCount]
      exact hBefore.counted

/-- Without backward branches a run ends, within one step more than there are instructions, and it
returns unless it comes to an instruction that it has to announce and whose line cannot be shown.
Each of its steps is made further on than all those before, so no instruction is executed twice and
at most all of them are executed, as many as are counted. -/
theorem ends_of_branchesForward (hForward : program.BranchesForward) (config : Config)
    (session : Session ι ω) :
    (∃ result, run (program.size + 1) config program session = some result ∧
      (final result).state.steps.toNat ≤ program.size) ∧
    (∀ crash after,
      run (program.size + 1) config program session = some (.error (.crash crash) after) ↔
        ∃ count, count ≤ program.size ∧
          steps config program count (restart session) = .ok .running after ∧
          Crashes config program after.state crash) ∧
    (program.labelWidth ≤ Instruction.maxFill → ∀ state crash,
      ¬ Crashes config program state crash) ∧
    (∀ earlier later before reached, earlier < later →
      steps config program earlier (restart session) = .ok .running before →
      steps config program later (restart session) = .ok .running reached →
      before.state.counter < reached.state.counter) ∧
    ∀ count,
      ((history config program count (restart session)).map (·.before.counter)).Nodup ∧
      (∀ entry ∈ history config program count (restart session),
        program.get? entry.before.counter = some entry.instruction) ∧
      (history config program count (restart session)).length ≤ program.size ∧
      (final (steps config program count (restart session))).state.steps.toNat =
        min (history config program count (restart session)).length
          MachineState.maxSteps.toNat := by
  refine ⟨?_, ?_, ?_, ?_, ?_⟩
  · obtain ⟨result, hRun⟩ := exists_run_of_branchesForward hForward config session
    obtain ⟨outcome, hAscends⟩ :=
      exists_ascends hForward config (program.size + 1) session
    have hCounted := hAscends.counted
    have hLength := hAscends.length_le
    rw [← state_of_run hRun] at hCounted
    exact ⟨result, hRun, by omega⟩
  · intro crash after
    simp only [← Nat.lt_succ_iff]
    exact run_eq_crash_iff
  · exact fun hWidth _ _ => not_crashes_of_labelWidth_le hWidth
  · intro earlier later before reached hLess hEarlier hLater
    exact counter_lt_of_steps hForward hLess hEarlier hLater
  · intro count
    obtain ⟨outcome, hAscends⟩ := exists_ascends hForward config count session
    exact ⟨hAscends.nodup, hAscends.fetched, hAscends.length_le, hAscends.counted⟩

/-- Of the two branches one is taken when zero is read. -/
def skipping : Program :=
  ⟨#[⟨"READ N", none, .read, some "N"⟩, ⟨"LOAD N", none, .load, some "N"⟩,
    ⟨"BL LOW", none, .branchIfNegative, some "LOW"⟩, ⟨"BE F", none, .branchIfZero, some "F"⟩,
    ⟨"LOW PRINT N", some "LOW", .print, some "N"⟩, ⟨"F END", some "F", .halt, none⟩],
    ((∅ : SymbolTable).insert "LOW" ⟨4, .code⟩).insert "F" ⟨5, .code⟩, 6⟩

/-- A fresh machine with the input zero. -/
def zeroSession : Session Script Sink :=
  ⟨{}, ⟨["0"]⟩, {}⟩

theorem ends_of_branchesForward_skipping :
    Program.build skipping.instructions.toList = .ok skipping ∧ skipping.BranchesForward ∧
      ∃ result, run 7 ⟨true, none⟩ skipping zeroSession = some result ∧
        (final result).state.steps.toNat ≤ 6 ∧
        (history ⟨true, none⟩ skipping 7 (restart zeroSession)).map (·.before.counter) =
          [0, 1, 2, 3, 5] := by
  have hForward : skipping.BranchesForward := by decide +kernel
  obtain ⟨⟨result, hRun, hSteps⟩, _⟩ := ends_of_branchesForward hForward ⟨true, none⟩ zeroSession
  have hCounters : (history ⟨true, none⟩ skipping 7 (restart zeroSession)).map
      (·.before.counter) = [0, 1, 2, 3, 5] := by decide +kernel
  exact ⟨rfl, hForward, result, hRun, hSteps, hCounters⟩

/-- A label of nearly as many bytes as the formatter fills keeps a run from returning, though its
program has no branch at all. -/
theorem exists_forward_run_crashes :
    ∃ lines program, Program.ofLines lines = .ok program ∧ program.BranchesForward ∧
      ∀ fuel, 0 < fuel → run fuel ⟨true, none⟩ program idleSession =
        some (.error (.crash ⟨65536⟩) (restart idleSession)) :=
  ⟨[Program.longLine 65533], _, Program.ofLines_longLine (by decide),
    Program.branchesForward_longProgram 65533,
    fun _ hFuel => run_longProgram (by decide) hFuel rfl idleSession⟩

end Execution

end Accumulator
