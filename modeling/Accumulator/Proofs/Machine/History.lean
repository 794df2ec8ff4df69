import Accumulator.Proofs.Machine.Decisions
import Accumulator.Proofs.Machine.Recording

/-! # The history of a run

The instructions that a row of steps has executed, in order, each with the machine and its input
before and behind it. What is true of the empty history and stays true with every executed
instruction is true of the history of every row of steps, also of one that fails in the end. An
executed instruction has carried out its effect, and an output that never fails cannot spoil that.
-/

namespace Accumulator

set_option autoImplicit false

structure Executed (ι : Type) where
  instruction : Instruction
  before : MachineState
  supply : ι
  after : MachineState
  rest : ι

namespace Executed

variable {ι : Type}

def ofSessions {ω : Type} (instruction : Instruction) (session next : Session ι ω) : Executed ι :=
  ⟨instruction, session.state, session.input, next.state, next.input⟩

def site (entry : Executed ι) : Site :=
  entry.instruction.site entry.before.counter

end Executed

namespace Execution

variable {ι ω : Type} [InputDevice ι] [OutputDevice ω] {config : Config} {program : Program}
  {session next after : Session ι ω} {outcome : StepOutcome} {instruction : Instruction}

/-- The instruction that a step executes, if there is one and it does not fail. -/
def executed? (config : Config) (program : Program) (session : Session ι ω) :
    Option (Executed ι) :=
  match program.get? session.state.counter, step config program session with
  | some instruction, .ok _ next => some (.ofSessions instruction session next)
  | _, _ => none

/-- The instructions that up to `count` steps execute, an `END` included. -/
def history (config : Config) (program : Program) : Nat → Session ι ω → List (Executed ι)
  | 0, _ => []
  | count + 1, session =>
    (executed? config program session).toList ++
      match step config program session with
      | .ok .running next => history config program count next
      | _ => []

theorem executed?_of_ok (hFound : program.get? session.state.counter = some instruction)
    (h : step config program session = .ok outcome next) :
    executed? config program session = some (.ofSessions instruction session next) := by
  simp only [executed?, hFound, h]

theorem executed?_of_end (hEnd : program.get? session.state.counter = none) :
    executed? config program session = none := by
  simp only [executed?, hEnd]

theorem executed?_of_error {failure : Failure}
    (h : step config program session = .error failure after) :
    executed? config program session = none := by
  simp only [executed?, h]
  split <;> simp_all

theorem history_add (first rest : Nat) (session : Session ι ω) :
    history config program (first + rest) session =
      history config program first session ++
        match steps config program first session with
        | .ok .running reached => history config program rest reached
        | _ => [] := by
  induction first generalizing session with
  | zero =>
    rw [Nat.zero_add]
    rfl
  | succ first ih =>
    rw [Nat.succ_add, history, history, steps_succ, List.append_assoc]
    congr 1
    cases step config program session with
    | error failure next => rfl
    | ok outcome next =>
      cases outcome with
      | running => exact ih next
      | finished termination => rfl

theorem history_of_copies {recorded : Session ι (Recorder ω)} (h : Copies recorded session)
    (count : Nat) :
    history config program count recorded = history config program count session := by
  induction count generalizing recorded session with
  | zero => rfl
  | succ count ih =>
    have hAlike := respects_copies.step config program _ _ h
    simp only [history, executed?, Executed.ofSessions, h.state, h.input]
    generalize step config program recorded = left, step config program session = right at hAlike ⊢
    cases hAlike with
    | error failure => cases program.get? session.state.counter <;> rfl
    | ok outcome hNext =>
      have hRest := ih hNext
      cases program.get? session.state.counter <;> cases outcome <;>
        simp only [hNext.state, hNext.input, hRest]

/-! ## Induction along a history -/

/-- What holds at the start and is kept by every executed instruction holds where a row of steps
ends well. -/
theorem history_induction {P : List (Executed ι) → StepOutcome → Session ι ω → Prop}
    (hExecutes : ∀ entries session instruction outcome next, P entries .running session →
      program.get? session.state.counter = some instruction →
      step config program session = .ok outcome next →
      P (entries ++ [.ofSessions instruction session next]) outcome next)
    (hRunsOff : ∀ entries session, P entries .running session →
      P entries (.finished .ranOffEnd) session)
    {count : Nat} {reached : Session ι ω} (hStart : P [] .running session)
    (h : steps config program count session = .ok outcome reached) :
    P (history config program count session) outcome reached := by
  have hRest : ∀ entries, P entries .running session →
      P (entries ++ history config program count session) outcome reached := by
    clear hStart
    induction count generalizing session with
    | zero =>
      intro entries hEntries
      cases h
      rw [history, List.append_nil]
      exact hEntries
    | succ count ih =>
      intro entries hEntries
      rw [steps_succ] at h
      rw [history, ← List.append_assoc]
      cases hFound : program.get? session.state.counter with
      | none =>
        have hStep : step config program session = .ok (.finished .ranOffEnd) session := by
          rw [step_eq, hFound]
        have hEnd := hRunsOff entries session hEntries
        rw [hStep] at h
        rw [executed?_of_end hFound, hStep, Option.toList_none, List.append_nil, List.append_nil]
        cases h
        exact hEnd
      | some instruction =>
        cases hStep : step config program session with
        | error failure next =>
          rw [hStep] at h
          cases h
        | ok first next =>
          have hNext := hExecutes entries session instruction first next hEntries hFound hStep
          rw [hStep] at h
          rw [executed?_of_ok hFound hStep, Option.toList_some]
          cases first with
          | running => exact ih h _ hNext
          | finished termination =>
            cases h
            rw [List.append_nil]
            exact hNext
  simpa using hRest [] hStart

theorem forall_mem_history {I : Session ι ω → Prop} {Q : Executed ι → Prop}
    (hExecutes : ∀ session instruction outcome next, I session →
      program.get? session.state.counter = some instruction →
      step config program session = .ok outcome next →
      Q (.ofSessions instruction session next) ∧ I next)
    {count : Nat} (hStart : I session) :
    ∀ entry ∈ history config program count session, Q entry := by
  induction count generalizing session with
  | zero => simp [history]
  | succ count ih =>
    rw [history]
    cases hFound : program.get? session.state.counter with
    | none => simp [step_eq, executed?_of_end hFound, hFound]
    | some instruction =>
      cases hStep : step config program session with
      | error failure next => simp [executed?_of_error hStep]
      | ok outcome next =>
        obtain ⟨hDoes, hNext⟩ := hExecutes session instruction outcome next hStart hFound hStep
        rw [executed?_of_ok hFound hStep, Option.toList_some]
        refine List.forall_mem_cons.mpr ⟨hDoes, ?_⟩
        cases outcome with
        | running => exact ih hNext
        | finished termination => nofun

/-- A row of steps that fails has the history of the steps before the last. -/
theorem exists_failing_step {count : Nat} {failure : Failure}
    (h : steps config program count session = .error failure after) :
    ∃ earlier before, steps config program earlier session = .ok .running before ∧
      step config program before = .error failure after ∧
      history config program count session = history config program earlier session := by
  obtain ⟨earlier, before, hEarlier, hReaches, hLast⟩ := exists_last_step h nofun
  refine ⟨earlier, before, hReaches, hLast, ?_⟩
  obtain ⟨rest, rfl⟩ := Nat.exists_eq_add_of_lt hEarlier
  rw [Nat.add_assoc, history_add, hReaches]
  simp only [history, executed?_of_error hLast, hLast, Option.toList_none, List.append_nil]

/-! ## Executed effects -/

/-- The effect has been carried out on the accumulator, the memory and the input. -/
inductive CarriesOut (program : Program) (entry : Executed ι) : Effect → Prop
  | compute {value : Word} (hAccumulator : entry.after.accumulator = value)
      (hMemory : entry.after.memory = entry.before.memory) (hInput : entry.rest = entry.supply) :
      CarriesOut program entry (.compute value)
  | store {name : String} {value : Word}
      (hAccumulator : entry.after.accumulator = entry.before.accumulator)
      (hMemory : entry.after.memory = entry.before.memory.insert name value)
      (hInput : entry.rest = entry.supply) : CarriesOut program entry (.store name value)
  | read {name : String} {value : Word}
      (hAccumulator : entry.after.accumulator = entry.before.accumulator)
      (hMemory : entry.after.memory = entry.before.memory.insert name (Word.reduce value))
      (hRead : InputDevice.read entry.supply = .ok value entry.rest) :
      CarriesOut program entry (.read name)
  | keep {effect : Effect} {index : Option Nat}
      (hProceeds : Proceeds program entry.before.counter effect index)
      (hAccumulator : entry.after.accumulator = entry.before.accumulator)
      (hMemory : entry.after.memory = entry.before.memory) (hInput : entry.rest = entry.supply) :
      CarriesOut program entry effect

theorem carriesOut_of_step (hFound : program.get? session.state.counter = some instruction)
    (h : step config program session = .ok outcome next) :
    ∃ effect, session.state.Decides instruction session.state.counter effect ∧
      CarriesOut program (.ofSessions instruction session next) effect := by
  have hDecides : ∀ {found : Instruction} {effect : Effect} {announced : Session ι ω},
      Issues config program session found effect announced →
      session.state.Decides instruction session.state.counter effect := by
    intro found effect announced hIssues
    have hSame := hIssues.fetched.symm.trans hFound
    cases hSame
    exact MachineState.decides_of_effect hIssues.decided
  cases step_ok h with
  | ranOff hEnd =>
    rw [hFound] at hEnd
    cases hEnd
  | write hIssues hCommits =>
    refine ⟨_, hDecides hIssues, ?_⟩
    obtain ⟨_, rfl⟩ := hIssues.announced_eq
    cases hCommits with
    | compute => exact .compute rfl rfl rfl
    | store => exact .store rfl rfl rfl
    | read _ _ _ hRead => exact .read rfl rfl hRead
  | proceed hIssues hProceeds => exact ⟨_, hDecides hIssues, .keep hProceeds rfl rfl rfl⟩
  | halt hIssues => exact ⟨_, hDecides hIssues, .keep .halt rfl rfl rfl⟩

theorem CarriesOut.of_read {entry : Executed ι} {name : String}
    (h : CarriesOut program entry (.read name)) :
    ∃ value, InputDevice.read entry.supply = .ok value entry.rest ∧
      entry.after.get? name = some (Word.reduce value) := by
  cases h with
  | keep hProceeds => cases hProceeds
  | read _ hMemory hRead =>
    refine ⟨_, hRead, ?_⟩
    rw [MachineState.get?, hMemory, Std.ExtTreeMap.getElem?_insert_self]

/-! ## Outputs that never fail -/

omit [InputDevice ι] in
theorem exists_received_of_announce {index : Nat}
    (h : announce config program instruction index session = .ok () after) :
    ∃ text, Received session.output after.output text := by
  unfold announce at h
  split at h
  · obtain ⟨_, _, output, hWrite, rfl⟩ := showLine_eq_ok_iff.mp h
    exact ⟨_, .write _ .start hWrite⟩
  · cases h
    exact ⟨"", .start⟩

/-- A step executes the instruction, unless it fails: it is there, the limit leaves room, and its
line can be shown if it has to be. -/
structure Starts (config : Config) (program : Program) (session : Session ι ω)
    (instruction : Instruction) : Prop where
  fetched : program.get? session.state.counter = some instruction
  unspent : config.spentLimit? session.state.steps = none
  noCrash : ∀ crash, ¬ Crashes config program session.state crash

omit [InputDevice ι] in
theorem Starts.exists_announce (h : Starts config program session instruction)
    (hNever : NeverFails session.output) :
    ∃ output, announce config program instruction session.state.counter session =
      .ok () ⟨session.state, session.input, output⟩ := by
  unfold announce
  split
  · rename_i hAnnounces
    cases hLine : program.line? session.state.counter with
    | error crash =>
      exact absurd ⟨⟨instruction, h.fetched, hAnnounces⟩, h.unspent, hLine⟩ (h.noCrash crash)
    | ok line =>
      obtain ⟨output, hWrite, _⟩ := hNever.write .start (line.getD "" ++ " ")
      exact ⟨output, showLine_eq_ok_iff.mpr ⟨line, hLine, output, hWrite, rfl⟩⟩
  · exact ⟨session.output, rfl⟩

omit [InputDevice ι] in
theorem Issues.starts {effect : Effect} {announced : Session ι ω}
    (h : Issues config program session instruction effect announced) :
    Starts config program session instruction where
  fetched := h.fetched
  unspent := h.unspent
  noCrash crash hCrashes := by
    obtain ⟨found, hFound, hAnnounces⟩ := hCrashes.announces
    have hSame := hFound.symm.trans h.fetched
    cases hSame
    have hShown := h.shown
    rw [announce_eq_crash hAnnounces hCrashes.line] at hShown
    cases hShown

section Commits

variable {effect : Effect} {announced committed : Session ι ω} {line : String}

theorem Commits.exists_write (h : Commits effect announced committed line)
    (hIssues : Issues config program session instruction effect announced)
    (hNever : NeverFails session.output) :
    ∃ output, OutputDevice.write line committed.output = .ok () output := by
  obtain ⟨text, hAnnounced⟩ := exists_received_of_announce hIssues.shown
  have hCommitted : Received session.output committed.output text := by
    cases h with
    | compute | store => exact hAnnounced
    | read _ _ hFlush => exact .flush hAnnounced hFlush
  obtain ⟨output, hWrite, _⟩ := hNever.write hCommitted line
  exact ⟨output, hWrite⟩

theorem Commits.write_ne_error {message : String} {output : ω}
    (h : Commits effect announced committed line)
    (hIssues : Issues config program session instruction effect announced)
    (hNever : NeverFails session.output) :
    OutputDevice.write line committed.output ≠ .error message output := by
  obtain ⟨_, hWrite⟩ := h.exists_write hIssues hNever
  rw [hWrite]
  nofun

theorem Commits.exists_step (h : Commits effect announced committed line)
    (hIssues : Issues config program session instruction effect announced)
    (hNever : NeverFails session.output) :
    ∃ next, step config program session = .ok .running next := by
  cases hPerform : perform config program (instruction.site session.state.counter) effect
      announced with
  | error failure failed =>
    obtain ⟨_, _, _, hWrite, _⟩ := (perform_eq_error_iff_of_commits h).mp hPerform
    exact absurd hWrite (h.write_ne_error hIssues hNever)
  | ok index performed =>
    obtain ⟨rfl, _⟩ := perform_ok_of_commits h hPerform
    rw [step_of_issues hIssues]
    exact ⟨_, bind_eq_ok_iff.mpr ⟨_, _, hPerform, rfl⟩⟩

end Commits

theorem state_eq_of_error {failure : Failure} (hNever : NeverFails session.output)
    (h : step config program session = .error failure after) : after.state = session.state := by
  cases step_error h with
  | limit | crash | announcement | evaluation | refusal => rfl
  | echo hIssues hCommits _ hWrite => exact absurd hWrite (hCommits.write_ne_error hIssues hNever)

end Execution

end Accumulator
