import Accumulator.Proofs.Machine.History
import Accumulator.Proofs.Machine.Range
import Accumulator.Proofs.Machine.Verbosity

/-! # What a machine remembers

The state of a running machine is told by its history: a variable holds what was last assigned to
it since the start of the run, and is undefined if nothing was, and the accumulator holds the last
result. So an undefined variable is found exactly by an instruction that uses a variable to which
nothing has been assigned yet.
-/

namespace Accumulator

set_option autoImplicit false

/-- The last of the elements with a property. -/
def Latest {α : Type} (P : α → Prop) (xs : List α) (x : α) : Prop :=
  ∃ front back, xs = front ++ x :: back ∧ P x ∧ ∀ y ∈ back, ¬ P y

section Latest

variable {α : Type} {P : α → Prop} {xs : List α} {x last : α}

theorem Latest.eq_of_concat (h : Latest P (xs ++ [last]) x) (hLast : P last) : x = last := by
  obtain ⟨front, back, hSplit, _, hBack⟩ := h
  rcases List.eq_nil_or_concat back with rfl | ⟨init, y, rfl⟩
  · exact (List.singleton_inj.mp (List.append_inj' hSplit rfl).2).symm
  · have hSame : xs ++ [last] = (front ++ x :: init) ++ [y] := by simpa using hSplit
    have hEnd : last = y := List.singleton_inj.mp (List.append_inj' hSame rfl).2
    subst hEnd
    exact absurd hLast (hBack last (by simp))

theorem Latest.of_concat (h : Latest P (xs ++ [last]) x) (hLast : ¬ P last) : Latest P xs x := by
  obtain ⟨front, back, hSplit, hHolds, hBack⟩ := h
  rcases List.eq_nil_or_concat back with rfl | ⟨init, y, rfl⟩
  · have hEnd : last = x := List.singleton_inj.mp (List.append_inj' hSplit rfl).2
    subst hEnd
    exact absurd hHolds hLast
  · have hSame : xs ++ [last] = (front ++ x :: init) ++ [y] := by simpa using hSplit
    refine ⟨front, init, (List.append_inj' hSame rfl).1, hHolds, ?_⟩
    intro z hMem
    exact hBack z (by simp [hMem])

end Latest

/-! ## What an executed instruction does -/

/-- The variable that an instruction assigns; a name that is missing counts as empty. -/
def Instruction.assignee? (instruction : Instruction) : Option String :=
  match instruction.opcode with
  | .store | .read => some instruction.target
  | .declare => some instruction.name
  | _ => none

namespace Instruction

variable {instruction : Instruction}

theorem assignee?_of_isArithmetic (h : instruction.opcode.isArithmetic = true) :
    instruction.assignee? = none := by
  unfold assignee?
  split <;> simp_all [Opcode.isArithmetic]

theorem does_neither_of_isBranch (h : instruction.opcode.isBranch = true) :
    instruction.opcode.isArithmetic = false ∧ instruction.assignee? = none := by
  unfold assignee?
  cases hOpcode : instruction.opcode <;> simp_all [Opcode.isBranch, Opcode.isArithmetic]

end Instruction

namespace Executed

variable {ι : Type}

/-- The result that an executed instruction has left in the accumulator. -/
def Computes (entry : Executed ι) (result : Word) : Prop :=
  ∃ value, entry.before.operandValue entry.instruction entry.site = .ok value ∧
    entry.instruction.opcode.Computes entry.before.accumulator value result

variable [InputDevice ι]

/-- The value that an executed instruction has given to the variable that it assigns. -/
inductive Assigns (entry : Executed ι) : Word → Prop
  | store (hOpcode : entry.instruction.opcode = .store) : Assigns entry entry.before.accumulator
  | read {value : Word} (hOpcode : entry.instruction.opcode = .read)
      (hRead : InputDevice.read entry.supply = .ok value entry.rest) :
      Assigns entry (Word.reduce value)
  | declare {value : Word} (hOpcode : entry.instruction.opcode = .declare)
      (hValue : literalValue entry.instruction.target entry.site = .ok value) : Assigns entry value

/-- What an executed instruction has done: it has computed a result, assigned a variable, or
neither. -/
inductive Does (entry : Executed ι) : Prop
  | computes (hArithmetic : entry.instruction.opcode.isArithmetic = true)
      (hAssignee : entry.instruction.assignee? = none)
      (hComputes : entry.Computes entry.after.accumulator)
      (hMemory : entry.after.memory = entry.before.memory)
  | assigns {name : String} {value : Word}
      (hArithmetic : entry.instruction.opcode.isArithmetic = false)
      (hAssignee : entry.instruction.assignee? = some name) (hAssigns : entry.Assigns value)
      (hAccumulator : entry.after.accumulator = entry.before.accumulator)
      (hMemory : entry.after.memory = entry.before.memory.insert name value)
  | neither (hArithmetic : entry.instruction.opcode.isArithmetic = false)
      (hAssignee : entry.instruction.assignee? = none)
      (hAccumulator : entry.after.accumulator = entry.before.accumulator)
      (hMemory : entry.after.memory = entry.before.memory)

theorem does_of_carriesOut {program : Program} {entry : Executed ι} {effect : Effect}
    (hDecides : entry.before.Decides entry.instruction entry.before.counter effect)
    (h : Execution.CarriesOut program entry effect) : entry.Does := by
  cases h with
  | compute hAccumulator hMemory =>
    cases hDecides with
    | compute hValue hComputes =>
      have hArithmetic := hComputes.isArithmetic
      refine .computes hArithmetic (Instruction.assignee?_of_isArithmetic hArithmetic) ?_ hMemory
      rw [hAccumulator]
      exact ⟨_, hValue, hComputes⟩
  | store hAccumulator hMemory =>
    cases hDecides with
    | store hOpcode =>
      refine .assigns ?_ ?_ (.store hOpcode) hAccumulator hMemory
      · rw [hOpcode]
        rfl
      · rw [Instruction.assignee?, hOpcode]
    | declare hOpcode hValue =>
      refine .assigns ?_ ?_ (.declare hOpcode hValue) hAccumulator hMemory
      · rw [hOpcode]
        rfl
      · rw [Instruction.assignee?, hOpcode]
  | read hAccumulator hMemory hRead =>
    cases hDecides with
    | read hOpcode =>
      refine .assigns ?_ ?_ (.read hOpcode hRead) hAccumulator hMemory
      · rw [hOpcode]
        rfl
      · rw [Instruction.assignee?, hOpcode]
  | keep hProceeds hAccumulator hMemory =>
    have hNeither : entry.instruction.opcode.isArithmetic = false ∧
        entry.instruction.assignee? = none := by
      cases hProceeds with
      | print =>
        cases hDecides with
        | print hOpcode => simp [Instruction.assignee?, Opcode.isArithmetic, hOpcode]
      | pass | jump =>
        cases hDecides with
        | branch hBranch => exact Instruction.does_neither_of_isBranch hBranch
      | halt =>
        cases hDecides with
        | halt hOpcode => simp [Instruction.assignee?, Opcode.isArithmetic, hOpcode]
    exact .neither hNeither.1 hNeither.2 hAccumulator hMemory

theorem Does.get? {entry : Executed ι} (h : entry.Does) :
    (∃ name value, entry.instruction.assignee? = some name ∧ entry.Assigns value ∧
      ∀ other, entry.after.get? other =
        if name = other then some value else entry.before.get? other) ∨
    (entry.instruction.assignee? = none ∧
      ∀ other, entry.after.get? other = entry.before.get? other) := by
  cases h with
  | @assigns name value _ hAssignee hAssigns _ hMemory =>
    refine .inl ⟨name, value, hAssignee, hAssigns, fun other => ?_⟩
    rw [← MachineState.get?_setVariable]
    exact congrArg (·[other]?) hMemory
  | computes _ hAssignee _ hMemory | neither _ hAssignee _ hMemory =>
    exact .inr ⟨hAssignee, fun other => congrArg (·[other]?) hMemory⟩

theorem Does.accumulator {entry : Executed ι} (h : entry.Does) :
    (entry.instruction.opcode.isArithmetic = true ∧ entry.Computes entry.after.accumulator) ∨
    (entry.instruction.opcode.isArithmetic = false ∧
      entry.after.accumulator = entry.before.accumulator) := by
  cases h with
  | computes hArithmetic _ hComputes => exact .inl ⟨hArithmetic, hComputes⟩
  | assigns hArithmetic _ _ hAccumulator | neither hArithmetic _ hAccumulator =>
    exact .inr ⟨hArithmetic, hAccumulator⟩

end Executed

/-! ## Histories and states -/

/-- The state is the one that the history leads to from the start of a run. -/
structure Remembers {ι : Type} [InputDevice ι] (entries : List (Executed ι))
    (state : MachineState) : Prop where
  undefined_iff : ∀ name, state.get? name = none ↔
    ∀ entry ∈ entries, entry.instruction.assignee? ≠ some name
  assigned : ∀ name entry, Latest (·.instruction.assignee? = some name) entries entry →
    ∃ value, entry.Assigns value ∧ state.get? name = some value
  uncomputed : (∀ entry ∈ entries, entry.instruction.opcode.isArithmetic = false) →
    state.accumulator = 0
  computed : ∀ entry, Latest (·.instruction.opcode.isArithmetic = true) entries entry →
    entry.Computes state.accumulator

section Histories

variable {ι : Type} [InputDevice ι] {entries : List (Executed ι)} {entry : Executed ι}

theorem remembers_nil : Remembers ([] : List (Executed ι)) {} where
  undefined_iff name := by simp [MachineState.get?]
  assigned name entry h := by
    obtain ⟨front, back, hSplit, _⟩ := h
    simp at hSplit
  uncomputed _ := rfl
  computed entry h := by
    obtain ⟨front, back, hSplit, _⟩ := h
    simp at hSplit

theorem Remembers.concat (h : Remembers entries entry.before) (hDoes : entry.Does) :
    Remembers (entries ++ [entry]) entry.after := by
  have hAll : ∀ {P : Executed ι → Prop},
      (∀ other ∈ entries ++ [entry], P other) ↔ (∀ other ∈ entries, P other) ∧ P entry := by
    intro P
    simp [or_imp, forall_and]
  constructor
  case undefined_iff =>
    intro other
    rw [hAll]
    rcases hDoes.get? with ⟨name, value, hAssignee, _, hGet⟩ | ⟨hAssignee, hGet⟩
    · rw [hGet, hAssignee]
      by_cases hName : name = other
      · simp [hName]
      · simp [hName, h.undefined_iff]
    · simp [hGet, hAssignee, h.undefined_iff]
  case assigned =>
    intro other last hLast
    rcases hDoes.get? with ⟨name, value, hAssignee, hAssigns, hGet⟩ | ⟨hAssignee, hGet⟩
    · rw [hGet]
      by_cases hName : name = other
      · subst hName
        rw [hLast.eq_of_concat hAssignee]
        exact ⟨value, hAssigns, if_pos rfl⟩
      · have hOther : ¬ entry.instruction.assignee? = some other := by simpa [hAssignee] using hName
        rw [if_neg hName]
        exact h.assigned other last (hLast.of_concat hOther)
    · have hOther : ¬ entry.instruction.assignee? = some other := by simp [hAssignee]
      rw [hGet]
      exact h.assigned other last (hLast.of_concat hOther)
  case uncomputed =>
    rw [hAll]
    rintro ⟨hNone, hLast⟩
    rcases hDoes.accumulator with ⟨hArithmetic, _⟩ | ⟨_, hSame⟩
    · rw [hLast] at hArithmetic
      cases hArithmetic
    · rw [hSame]
      exact h.uncomputed hNone
  case computed =>
    intro last hLast
    rcases hDoes.accumulator with ⟨hArithmetic, hComputes⟩ | ⟨hArithmetic, hSame⟩
    · rw [hLast.eq_of_concat hArithmetic]
      exact hComputes
    · rw [hSame]
      exact h.computed last (hLast.of_concat (by simp [hArithmetic]))

end Histories

/-! ## Undefined variables -/

namespace MachineState

variable {state : MachineState} {instruction : Instruction} {index : Nat} {name : String}
  {site : Site}

theorem operandValue_eq_error_iff (hForm : instruction.operandForm? = some (.variable name)) :
    state.operandValue instruction site = .error (.undefinedVariable name site) ↔
      state.get? name = none := by
  rw [operandValue, hForm]
  dsimp only
  split <;> simp_all

theorem effect_of_operandValue_error (index : Nat) {fault : Fault}
    (hUses : instruction.opcode.usesValue = true)
    (h : state.operandValue instruction (instruction.site index) = .error fault) :
    state.effect instruction index = .error fault := by
  unfold effect
  cases hOpcode : instruction.opcode with
  | load | add | subtract | multiply | divide | print =>
    simp only [computeWith, h]
    rfl
  | _ =>
    rw [hOpcode] at hUses
    cases hUses

theorem operandValue_of_effect_error
    (h : state.effect instruction index = .error (.undefinedVariable name site)) :
    instruction.opcode.usesValue = true ∧
      state.operandValue instruction (instruction.site index) =
        .error (.undefinedVariable name site) := by
  cases faults_of_effect h with
  | operand hUses hValue => exact ⟨hUses, hValue⟩
  | literal _ hValue => cases eq_of_literalValue_error hValue

end MachineState

namespace Execution

variable {ι ω : Type} [InputDevice ι] [OutputDevice ω] {config : Config} {program : Program}
  {session : Session ι ω}

omit [InputDevice ι] [OutputDevice ω] in
theorem starts_of_showable (hShowable : program.Showable) {instruction : Instruction}
    (hFound : program.get? session.state.counter = some instruction)
    (hUnspent : config.spentLimit? session.state.steps = none) :
    Starts config program session instruction :=
  ⟨hFound, hUnspent, fun _ hCrashes => hShowable _ hCrashes.cannotShow⟩

/-- A step fails for an undefined variable as its operand. -/
def FindsUndefined (config : Config) (program : Program) (session : Session ι ω)
    (name : String) : Prop :=
  ∃ instruction site after, program.get? session.state.counter = some instruction ∧
    instruction.operandForm? = some (.variable name) ∧
    step config program session = .error (.fault (.undefinedVariable name site)) after

theorem effect_of_undefinedVariable {after : Session ι ω} {instruction : Instruction}
    {name : String} {site : Site} (hFound : program.get? session.state.counter = some instruction)
    (h : step config program session = .error (.fault (.undefinedVariable name site)) after) :
    session.state.effect instruction session.state.counter =
      .error (.undefinedVariable name site) := by
  cases step_error h with
  | evaluation hFetched hEffect =>
    have hSame := hFetched.symm.trans hFound
    cases hSame
    exact hEffect
  | refusal _ hRefuses =>
    generalize hFault : Fault.undefinedVariable name site = fault at hRefuses
    cases hRefuses with
    | output | jump => cases hFault
    | @input _ _ _ cause => cases cause <;> cases hFault

theorem findsUndefined_iff (hNever : NeverFails session.output) {name : String} :
    FindsUndefined config program session name ↔
      ∃ instruction, Starts config program session instruction ∧
        instruction.opcode.usesValue = true ∧
        instruction.operandForm? = some (.variable name) ∧ session.state.get? name = none := by
  constructor
  · rintro ⟨instruction, site, after, hFound, hForm, hStep⟩
    have hUnspent : config.spentLimit? session.state.steps = none := by
      cases hSpent : config.spentLimit? session.state.steps with
      | none => rfl
      | some limit =>
        rw [step_eq, hFound] at hStep
        simp only [hSpent] at hStep
        cases hStep
    have hNoCrash : ∀ crash, ¬ Crashes config program session.state crash := by
      intro crash hCrashes
      rw [step_eq_crash_iff.mpr ⟨hCrashes, rfl⟩] at hStep
      cases hStep
    obtain ⟨hUses, hValue⟩ := MachineState.operandValue_of_effect_error
      (effect_of_undefinedVariable hFound hStep)
    have hSite : site = instruction.site session.state.counter := by
      have hSite := MachineState.site?_of_operandValue_error hValue
      cases hSite
      rfl
    subst hSite
    exact ⟨instruction, ⟨hFound, hUnspent, hNoCrash⟩, hUses, hForm,
      (MachineState.operandValue_eq_error_iff hForm).mp hValue⟩
  · rintro ⟨instruction, hStarts, hUses, hForm, hUndefined⟩
    have hEffect := MachineState.effect_of_operandValue_error session.state.counter hUses
      ((MachineState.operandValue_eq_error_iff hForm).mpr hUndefined)
    obtain ⟨output, hShown⟩ := hStarts.exists_announce hNever
    refine ⟨instruction, instruction.site session.state.counter,
      ⟨session.state, session.input, output⟩, hStarts.fetched, hForm, ?_⟩
    rw [step_eq, hStarts.fetched]
    simp only [hStarts.unspent, hShown, hEffect]

theorem remembers_of_steps {count : Nat} {outcome : StepOutcome} {reached : Session ι ω}
    (h : steps config program count (restart session) = .ok outcome reached) :
    Remembers (history config program count (restart session)) reached.state := by
  refine history_induction (P := fun entries _ reached => Remembers entries reached.state)
    ?_ (fun _ _ h => h) remembers_nil h
  intro entries before instruction outcome next hRemembers hFound hStep
  obtain ⟨effect, hDecides, hCarries⟩ := carriesOut_of_step hFound hStep
  exact hRemembers.concat (Executed.does_of_carriesOut hDecides hCarries)

/-- Along a run on an output that never fails the state is the one that the history tells, and the
next step finds an undefined variable exactly if it comes to use one to which nothing has been
assigned since the start of the run. -/
theorem remembers_history (config : Config) (program : Program) (count : Nat)
    (session : Session ι ω) (hNever : NeverFails session.output) :
    Remembers (history config program count (restart session))
        (final (steps config program count (restart session))).state ∧
      ∀ reached, steps config program count (restart session) = .ok .running reached →
        ∀ name, FindsUndefined config program reached name ↔
          ∃ instruction, Starts config program reached instruction ∧
            instruction.opcode.usesValue = true ∧
            instruction.operandForm? = some (.variable name) ∧
            ∀ entry ∈ history config program count (restart session),
              entry.instruction.assignee? ≠ some name := by
  have hStart : NeverFails (restart session).output := hNever
  constructor
  · cases hSteps : steps config program count (restart session) with
    | ok outcome reached => exact remembers_of_steps hSteps
    | error failure after =>
      obtain ⟨earlier, before, hEarlier, hLast, hHistory⟩ := exists_failing_step hSteps
      rw [hHistory, final, state_eq_of_error (neverFails_of_steps hStart hEarlier) hLast]
      exact remembers_of_steps hEarlier
  · intro reached hSteps name
    rw [findsUndefined_iff (neverFails_of_steps hStart hSteps),
      (remembers_of_steps hSteps).undefined_iff]

def rewrites : Program :=
  ⟨#[⟨"LOAD =2", none, .load, some "=2"⟩, ⟨"STORE X", none, .store, some "X"⟩,
    ⟨"READ X", none, .read, some "X"⟩, ⟨"PRINT Y", none, .print, some "Y"⟩], ∅, 3⟩

theorem remembers_history_rewrites :
    NeverFails copySession.output ∧
      ∃ reached, steps ⟨true, none⟩ rewrites 3 (restart copySession) = .ok .running reached ∧
        Remembers (history ⟨true, none⟩ rewrites 3 (restart copySession)) reached.state ∧
        reached.state.get? "X" = some 7 ∧ reached.state.accumulator = 2 ∧
        FindsUndefined ⟨true, none⟩ rewrites reached "Y" := by
  have hNever : NeverFails copySession.output := Sink.neverFails ByteArray.empty
  obtain ⟨hRemembers, hUndefined⟩ := remembers_history ⟨true, none⟩ rewrites 3 copySession hNever
  have hSteps : steps ⟨true, none⟩ rewrites 3 (restart copySession) = .ok .running _ := rfl
  rw [hSteps] at hRemembers
  have hShowable : rewrites.Showable := Program.showable_of_labelWidth_le (by decide)
  refine ⟨hNever, _, hSteps, hRemembers, rfl, rfl, (hUndefined _ hSteps "Y").mpr ?_⟩
  exact ⟨_, starts_of_showable hShowable rfl rfl, rfl, rfl, (hRemembers.undefined_iff "Y").mp rfl⟩

end Execution

end Accumulator
