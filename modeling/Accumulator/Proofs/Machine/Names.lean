import Accumulator.Proofs.Instruction.Grammar
import Accumulator.Proofs.Machine.Targets
import Accumulator.Proofs.Program.Labels

/-! # The names of variables

An instruction that was read from a line has the operand and the label that its operation needs, so
that no name is ever made up for one that is missing. The variables of a run are therefore known
before it: they are the operands and labels that the lines of the program assign, and an undefined
variable is one that the failing line names.
-/

namespace Accumulator

set_option autoImplicit false

/-- A line of the program has the variable to assign, for its operand or for its label. -/
inductive Program.HasVariable (program : Program) (name : String) : Prop
  | operand {index : Nat} {instruction : Instruction}
      (hFound : program.get? index = some instruction)
      (hOpcode : instruction.opcode = .store ∨ instruction.opcode = .read)
      (hOperand : instruction.operand = some name) : HasVariable program name
  | label {index : Nat} {instruction : Instruction}
      (hFound : program.get? index = some instruction) (hOpcode : instruction.opcode = .declare)
      (hLabel : instruction.label = some name) : HasVariable program name

theorem Opcode.ne_halt_of_usesValue {opcode : Opcode} (h : opcode.usesValue = true) :
    opcode ≠ .halt := by
  rintro rfl
  cases h

namespace Instruction

variable {line : String} {instruction : Instruction}

theorem Reads.wellShaped (h : Reads line instruction) : instruction.WellShaped :=
  (source_eq_of_parse (parse_eq_ok_iff.mpr h)).2

theorem Reads.operand (h : Reads line instruction) (hOpcode : instruction.opcode ≠ .halt) :
    instruction.operand = some instruction.target ∧ Text.IsRun Text.isGap instruction.target := by
  have hOperand := h.wellShaped.operand_eq hOpcode
  exact ⟨hOperand, h.isRun_operand _ hOperand⟩

theorem Reads.label (h : Reads line instruction) (hOpcode : instruction.opcode = .declare) :
    instruction.label = some instruction.name ∧ Text.IsRun Text.isGap instruction.name := by
  have hLabel := h.wellShaped.label_eq hOpcode
  exact ⟨hLabel, h.isRun_label _ hLabel⟩

end Instruction

theorem Program.exists_reads_of_ofLines {lines : List String} {program : Program}
    (h : ofLines lines = .ok program) {index : Nat} {instruction : Instruction}
    (hFound : program.get? index = some instruction) :
    ∃ line, lines[index]? = some line ∧ Instruction.Reads line instruction := by
  obtain ⟨instructions, hRead, hBuild⟩ := exists_of_bind_eq_ok h
  rw [get?_of_build hBuild] at hFound
  obtain ⟨line, hLine, hParse⟩ := getElem?_of_map_eq_map_ok (mapM_eq_ok_iff.mp hRead) hFound
  exact ⟨line, hLine, Instruction.parse_eq_ok_iff.mp hParse⟩

theorem MachineState.operand_of_operandValue_error {state : MachineState}
    {instruction : Instruction} {operand name : String} {site other : Site}
    (hOperand : instruction.operand = some operand)
    (h : state.operandValue instruction site = .error (.undefinedVariable name other)) :
    operand = name ∧ Operand.classify operand = .variable name := by
  have hForm : instruction.operandForm? = some (Operand.classify operand) := by
    rw [Instruction.operandForm?, hOperand, Option.map_some]
  rw [operandValue, hForm] at h
  rcases hClass : Operand.classify operand with literal | found <;> rw [hClass] at h <;>
    dsimp only at h
  · cases eq_of_literalValue_error h
  · split at h <;> cases h
    exact ⟨Operand.eq_of_classify_eq_variable hClass, rfl⟩

namespace Execution

variable {ι ω : Type} [InputDevice ι] [OutputDevice ω] {config : Config} {program : Program}
  {session after : Session ι ω} {lines : List String} {instruction : Instruction} {name : String}
  {site : Site}

/-! ## Variables that are written -/

theorem hasVariable_of_assignee? (h : Program.ofLines lines = .ok program) {index : Nat}
    (hFound : program.get? index = some instruction)
    (hAssignee : instruction.assignee? = some name) :
    program.HasVariable name ∧ Text.IsRun Text.isGap name := by
  obtain ⟨line, _, hReads⟩ := Program.exists_reads_of_ofLines h hFound
  unfold Instruction.assignee? at hAssignee
  split at hAssignee
  · rename_i hOpcode
    cases hAssignee
    obtain ⟨hOperand, hRun⟩ := hReads.operand (by simp [hOpcode])
    exact ⟨.operand hFound (.inl hOpcode) hOperand, hRun⟩
  · rename_i hOpcode
    cases hAssignee
    obtain ⟨hOperand, hRun⟩ := hReads.operand (by simp [hOpcode])
    exact ⟨.operand hFound (.inr hOpcode) hOperand, hRun⟩
  · rename_i hOpcode
    cases hAssignee
    obtain ⟨hLabel, hRun⟩ := hReads.label hOpcode
    exact ⟨.label hFound hOpcode hLabel, hRun⟩
  · cases hAssignee

/-- All variables of the state are fields of the program's text that it assigns. -/
def HoldsNames (program : Program) (state : MachineState) : Prop :=
  ∀ name ∈ state.memory, program.HasVariable name ∧ Text.IsRun Text.isGap name

theorem holdsNames_step (h : Program.ofLines lines = .ok program) (session : Session ι ω)
    (hNames : HoldsNames program session.state) :
    HoldsNames program (final (step config program session)).state := by
  intro name hName
  rcases memory_of_step config program session with hSame | ⟨_, _, _, hFound, hAssignee, hMemory⟩
  · rw [hSame] at hName
    exact hNames name hName
  · rw [hMemory, Std.ExtTreeMap.mem_insert] at hName
    rcases hName with hNew | hOld
    · rw [← Std.LawfulEqCmp.eq_of_compare hNew]
      exact hasVariable_of_assignee? h hFound hAssignee
    · exact hNames name hOld

theorem holdsNames_of_steps (h : Program.ofLines lines = .ok program) (config : Config)
    (count : Nat) (session : Session ι ω) :
    HoldsNames program (final (steps config program count (restart session))).state := by
  apply final_steps (holdsNames_step h)
  intro name hName
  simp [restart] at hName

/-! ## Variables that are missed -/

/-- The instruction at the counter has the variable for its operand, at the site of the fault. -/
structure Misses (program : Program) (state : MachineState) (name : String) (site : Site) :
    Prop where
  nonempty : name ≠ ""
  operand : ∃ instruction, program.get? state.counter = some instruction ∧
    site = instruction.site state.counter ∧ instruction.operand = some name ∧
    instruction.operandForm? = some (.variable name)

theorem misses_of_step (h : Program.ofLines lines = .ok program)
    (hStep : step config program session = .error (.fault (.undefinedVariable name site)) after) :
    Misses program after.state name site := by
  obtain ⟨hCounter, _⟩ := (step_error hStep).counter_eq_and_steps_eq
  cases hFound : program.get? session.state.counter with
  | none =>
    rw [step_eq, hFound] at hStep
    cases hStep
  | some instruction =>
    obtain ⟨hUses, hValue⟩ :=
      MachineState.operandValue_of_effect_error (effect_of_undefinedVariable hFound hStep)
    obtain ⟨line, _, hReads⟩ := Program.exists_reads_of_ofLines h hFound
    obtain ⟨hOperand, hRun⟩ := hReads.operand (Opcode.ne_halt_of_usesValue hUses)
    obtain ⟨hName, hClass⟩ := MachineState.operand_of_operandValue_error hOperand hValue
    have hSite := MachineState.site?_of_operandValue_error hValue
    rw [hName] at hOperand hRun hClass
    rw [← hCounter] at hFound hSite
    refine ⟨hRun.1, instruction, hFound, Option.some.inj hSite, hOperand, ?_⟩
    rw [Instruction.operandForm?, hOperand, Option.map_some, hClass]

theorem misses_of_steps (h : Program.ofLines lines = .ok program) {count : Nat}
    (hSteps : steps config program count session =
      .error (.fault (.undefinedVariable name site)) after) :
    Misses program after.state name site := by
  obtain ⟨_, before, _, _, hLast⟩ := exists_last_step hSteps nofun
  exact misses_of_step h hLast

/-- A run of a program that was read from lines. What an instruction needs of its line is there, so
the states hold only variables that the lines assign, and only a variable that its line names is
found undefined. -/
theorem names_of_ofLines (h : Program.ofLines lines = .ok program) (config : Config)
    (session : Session ι ω) :
    (∀ count, HoldsNames program (final (steps config program count (restart session))).state) ∧
    (∀ fuel result, run fuel config program session = some result →
      HoldsNames program (final result).state) ∧
    (∀ count name site after,
      steps config program count (restart session) =
        .error (.fault (.undefinedVariable name site)) after →
      Misses program after.state name site) ∧
    (∀ fuel name site after,
      run fuel config program session =
        some (.error (.fault (.undefinedVariable name site)) after) →
      Misses program after.state name site) ∧
    ∀ index instruction, program.get? index = some instruction →
      (instruction.opcode ≠ .halt →
        instruction.operand = some instruction.target ∧ instruction.target ≠ "") ∧
      (instruction.opcode = .declare →
        instruction.label = some instruction.name ∧ instruction.name ≠ "") := by
  refine ⟨fun count => holdsNames_of_steps h config count session, ?_,
    fun _ _ _ _ hSteps => misses_of_steps h hSteps, ?_, ?_⟩
  · intro fuel result hRun
    rw [state_of_run hRun]
    exact holdsNames_of_steps h config fuel session
  · intro fuel name site after hRun
    obtain ⟨reached, _, rfl, hSteps | ⟨_, _, _, hDevice⟩⟩ := run_error hRun
    · change Misses program reached.state name site
      exact misses_of_steps h hSteps
    · cases hDevice
  · intro index instruction hFound
    obtain ⟨line, _, hReads⟩ := Program.exists_reads_of_ofLines h hFound
    constructor
    · intro hOpcode
      obtain ⟨hOperand, hRun⟩ := hReads.operand hOpcode
      exact ⟨hOperand, hRun.1⟩
    · intro hOpcode
      obtain ⟨hLabel, hRun⟩ := hReads.label hOpcode
      exact ⟨hLabel, hRun.1⟩

/-- Assigns three variables and prints a fourth. -/
def unassigned : Program :=
  ⟨#[⟨"Load DC 3", some "Load", .declare, some "3"⟩, ⟨"READ\té", none, .read, some "é"⟩,
    ⟨"STORE =1", none, .store, some "=1"⟩, ⟨"PRINT X", none, .print, some "X"⟩],
    (∅ : SymbolTable).insert "Load" ⟨0, .data⟩, 7⟩

/-- A fresh machine with the input seven. -/
def sevenSession : Session Script Sink :=
  ⟨{}, ⟨["7"]⟩, {}⟩

theorem names_of_ofLines_unassigned :
    Program.ofLines ["Load DC 3", "READ\té", "STORE =1", "PRINT X"] = .ok unassigned ∧
      (∃ site after,
        steps ⟨false, none⟩ unassigned 4 (restart sevenSession) =
          .error (.fault (.undefinedVariable "X" site)) after ∧
        after.state.memory.keys = ["=1", "Load", "é"] ∧ HoldsNames unassigned after.state ∧
        Misses unassigned after.state "X" site) ∧
      (∃ result, run 9 ⟨false, none⟩ unassigned sevenSession = some result ∧
        HoldsNames unassigned (final result).state) ∧
      ∃ instruction, unassigned.get? 0 = some instruction ∧ instruction.opcode = .declare ∧
        instruction.label = some instruction.name ∧ instruction.name ≠ "" := by
  have hBuilt : Program.ofLines ["Load DC 3", "READ\té", "STORE =1", "PRINT X"] =
      .ok unassigned := rfl
  obtain ⟨hHeld, hResults, hMissed, _, hFields⟩ :=
    names_of_ofLines hBuilt ⟨false, none⟩ sevenSession
  have hSteps : steps ⟨false, none⟩ unassigned 4 (restart sevenSession) =
      .error (.fault (.undefinedVariable "X" ⟨3, "PRINT X"⟩)) _ := rfl
  have hRun : run 9 ⟨false, none⟩ unassigned sevenSession = some _ := rfl
  have hFound : unassigned.get? 0 = some _ := rfl
  exact ⟨hBuilt, ⟨_, _, hSteps, rfl, hHeld 4, hMissed 4 "X" _ _ hSteps⟩,
    ⟨_, hRun, hResults 9 _ hRun⟩, _, hFound, rfl, (hFields 0 _ hFound).2 rfl⟩

end Execution

end Accumulator
