import Accumulator.Proofs.Machine.Memory

/-! # What a step writes

A step changes at most the variable that its instruction assigns, and it has done so as soon as
only its echo is left. A literal is no value there: an instruction that assigns its operand takes
the operand as written for a name, equals sign included. No instruction can ask for a variable of
such a name, since its operand would be that literal again.
-/

namespace Accumulator

set_option autoImplicit false

namespace Operand

variable {text literal name : String}

theorem classify_eq_immediate_iff : classify text = .immediate literal ↔ text = "=" ++ literal := by
  rw [← String.toList_inj, String.toList_append]
  unfold classify
  split
  · rename_i rest hText
    rw [hText, immediate.injEq, ← String.toList_inj, String.toList_ofList]
    simp
  · rename_i hOther
    refine iff_of_false nofun ?_
    intro hText
    exact hOther literal.toList (by simpa using hText)

theorem eq_of_classify_eq_variable (h : classify text = .variable name) : text = name := by
  unfold classify at h
  split at h <;> cases h
  rfl

theorem ne_of_classify_eq_variable (h : classify text = .variable name) (literal : String) :
    name ≠ "=" ++ literal := by
  intro hName
  have hText := (eq_of_classify_eq_variable h).trans hName
  rw [classify_eq_immediate_iff.mpr hText] at h
  cases h

end Operand

theorem Instruction.target_of_immediate {instruction : Instruction} {literal : String}
    (h : instruction.operandForm? = some (.immediate literal)) :
    instruction.target = "=" ++ literal := by
  obtain ⟨operand, hOperand, hClass⟩ := Option.map_eq_some_iff.mp h
  rw [Instruction.target, hOperand, Option.getD_some]
  exact Operand.classify_eq_immediate_iff.mp hClass

/-- An equals sign starts no number. -/
theorem Decimal.int32?_equals_append (literal : String) : int32? ("=" ++ literal) = none := by
  have hText : ("=" ++ literal).toList = '=' :: literal.toList := by simp
  simp [int32?, hText, integer?, natural?, digits?]

namespace MachineState

theorem insert_eq_self_iff {memory : VariableStore} {name : String} {value : Word} :
    memory.insert name value = memory ↔ memory[name]? = some value := by
  constructor
  · intro h
    rw [← h, Std.ExtTreeMap.getElem?_insert_self]
  · intro h
    apply Std.ExtTreeMap.ext_getElem?
    intro other
    rw [Std.ExtTreeMap.getElem?_insert]
    split
    · rename_i hSame
      rw [← Std.LawfulEqCmp.eq_of_compare hSame, h]
    · rfl

/-- The variable that a literal would name decides nothing. -/
theorem effect_setVariable_equals (state : MachineState) (literal : String) (value : Word)
    (instruction : Instruction) (index : Nat) :
    (state.setVariable ("=" ++ literal) value).effect instruction index =
      state.effect instruction index := by
  have hValue : (state.setVariable ("=" ++ literal) value).operandValue instruction
      (instruction.site index) = state.operandValue instruction (instruction.site index) := by
    unfold operandValue
    split
    · rfl
    · rename_i name hForm
      obtain ⟨_, _, hClass⟩ := Option.map_eq_some_iff.mp hForm
      have hOther := Operand.ne_of_classify_eq_variable hClass literal
      simp only [get?_setVariable, if_neg hOther.symm]
    · rfl
  unfold effect
  cases instruction.opcode <;> simp only [computeWith, hValue] <;> rfl

end MachineState

namespace Execution

variable {ι ω : Type} [InputDevice ι] [OutputDevice ω] {config : Config} {program : Program}
  {session : Session ι ω} {instruction : Instruction}

/-- The step comes to give this value to the variable that its instruction assigns. -/
inductive Writes (config : Config) (program : Program) (session : Session ι ω)
    (instruction : Instruction) : Word → Prop
  | store {announced : Session ι ω} (hStarts : Starts config program session instruction)
      (hShown : announce config program instruction session.state.counter session =
        .ok () announced)
      (hOpcode : instruction.opcode = .store) :
      Writes config program session instruction session.state.accumulator
  | declare {announced : Session ι ω} {value : Word}
      (hStarts : Starts config program session instruction)
      (hShown : announce config program instruction session.state.counter session =
        .ok () announced)
      (hOpcode : instruction.opcode = .declare)
      (hValue : literalValue instruction.target (instruction.site session.state.counter) =
        .ok value) : Writes config program session instruction value
  | read {announced : Session ι ω} {value : Word} {input : ι} {output : ω}
      (hStarts : Starts config program session instruction)
      (hShown : announce config program instruction session.state.counter session =
        .ok () announced)
      (hOpcode : instruction.opcode = .read)
      (hFlush : OutputDevice.flush announced.output = .ok () output)
      (hRead : InputDevice.read session.input = .ok value input) :
      Writes config program session instruction (Word.reduce value)

/-- Whatever becomes of its echo, a write stays in the memory. -/
theorem memory_of_commits {effect : Effect} {announced committed : Session ι ω} {line : String}
    (hIssues : Issues config program session instruction effect announced)
    (hCommits : Commits effect announced committed line) :
    (final (step config program session)).state.memory = committed.state.memory := by
  have hPerform := perform_of_commits config program
    (instruction.site session.state.counter) hCommits
  cases hStep : step config program session with
  | ok outcome after =>
    rw [step_of_issues hIssues] at hStep
    obtain ⟨next, performed, hPerformed, hAdvance⟩ := bind_eq_ok_iff.mp hStep
    obtain ⟨rfl, output, rfl⟩ := perform_ok_of_commits hCommits hPerformed
    cases hAdvance
    rfl
  | error failure after =>
    rw [step_of_issues hIssues] at hStep
    rcases bind_eq_error_iff.mp hStep with hPerformed | ⟨next, _, _, hAdvance⟩
    · obtain ⟨_, _, _, _, _, rfl⟩ := (perform_eq_error_iff_of_commits hCommits).mp hPerformed
      rfl
    · cases next <;> cases hAdvance

theorem memory_of_writes {name : String} {value : Word}
    (hAssignee : instruction.assignee? = some name)
    (h : Writes config program session instruction value) :
    (final (step config program session)).state.memory =
      session.state.memory.insert name value := by
  have hIssues : ∀ {effect : Effect} {announced : Session ι ω},
      Starts config program session instruction →
      announce config program instruction session.state.counter session = .ok () announced →
      session.state.Decides instruction session.state.counter effect →
      Issues config program session instruction effect announced :=
    fun hStarts hShown hDecides =>
      ⟨hStarts.fetched, hStarts.unspent, hShown, MachineState.effect_of_decides hDecides⟩
  cases h with
  | store hStarts hShown hOpcode =>
    obtain ⟨_, rfl⟩ := announce_ok hShown
    rw [Instruction.assignee?, hOpcode, Option.some.injEq] at hAssignee
    subst hAssignee
    exact memory_of_commits (hIssues hStarts hShown (.store hOpcode)) (.store _ _ _)
  | declare hStarts hShown hOpcode hValue =>
    obtain ⟨_, rfl⟩ := announce_ok hShown
    rw [Instruction.assignee?, hOpcode, Option.some.injEq] at hAssignee
    subst hAssignee
    exact memory_of_commits (hIssues hStarts hShown (.declare hOpcode hValue)) (.store _ _ _)
  | read hStarts hShown hOpcode hFlush hRead =>
    obtain ⟨_, rfl⟩ := announce_ok hShown
    rw [Instruction.assignee?, hOpcode, Option.some.injEq] at hAssignee
    subst hAssignee
    exact memory_of_commits (hIssues hStarts hShown (.read hOpcode)) (.read _ _ hFlush hRead)

theorem memory_of_not_writes (hFound : program.get? session.state.counter = some instruction)
    (h : ∀ value, ¬ Writes config program session instruction value) :
    (final (step config program session)).state.memory = session.state.memory := by
  have hKept : ∀ {found : Instruction} {effect : Effect} {announced committed : Session ι ω}
      {line : String}, Issues config program session found effect announced →
      Commits effect announced committed line →
      committed.state.memory = session.state.memory := by
    intro found effect announced committed line hIssues hCommits
    have hSame := hIssues.fetched.symm.trans hFound
    cases hSame
    have hStarts : Starts config program session instruction := hIssues.starts
    have hDecides := MachineState.decides_of_effect hIssues.decided
    have hShown := hIssues.shown
    obtain ⟨_, rfl⟩ := hIssues.announced_eq
    cases hCommits with
    | compute => rfl
    | store =>
      cases hDecides with
      | store hOpcode => exact absurd (.store hStarts hShown hOpcode) (h _)
      | declare hOpcode hValue => exact absurd (.declare hStarts hShown hOpcode hValue) (h _)
    | read _ _ hFlush hRead =>
      cases hDecides with
      | read hOpcode => exact absurd (.read hStarts hShown hOpcode hFlush hRead) (h _)
  cases hStep : step config program session with
  | ok outcome after =>
    cases step_ok hStep with
    | write hIssues hCommits =>
      have hMemory := hKept hIssues hCommits
      exact hMemory
    | ranOff | proceed | halt => rfl
  | error failure after =>
    cases step_error hStep with
    | echo hIssues hCommits =>
      have hMemory := hKept hIssues hCommits
      exact hMemory
    | limit | crash | announcement | evaluation | refusal => rfl

theorem Writes.exists_assignee {value : Word}
    (h : Writes config program session instruction value) :
    ∃ name, instruction.assignee? = some name := by
  cases h with
  | store _ _ hOpcode | declare _ _ hOpcode | read _ _ hOpcode =>
    rw [Instruction.assignee?, hOpcode]
    exact ⟨_, rfl⟩

/-- A step writes one variable at most, and that is the one which its instruction assigns. -/
theorem memory_of_step (config : Config) (program : Program) (session : Session ι ω) :
    (final (step config program session)).state.memory = session.state.memory ∨
      ∃ instruction name value, program.get? session.state.counter = some instruction ∧
        instruction.assignee? = some name ∧
        (final (step config program session)).state.memory =
          session.state.memory.insert name value := by
  cases hFound : program.get? session.state.counter with
  | none =>
    left
    rw [step_eq, hFound]
    rfl
  | some instruction =>
    by_cases hWrites : ∃ value, Writes config program session instruction value
    · obtain ⟨value, hWrites⟩ := hWrites
      obtain ⟨name, hAssignee⟩ := hWrites.exists_assignee
      exact .inr ⟨instruction, name, value, rfl, hAssignee, memory_of_writes hAssignee hWrites⟩
    · exact .inl (memory_of_not_writes hFound (not_exists.mp hWrites))

theorem Writes.opcode_of_immediate {literal : String} {value : Word}
    (h : Writes config program session instruction value)
    (hLiteral : instruction.operandForm? = some (.immediate literal)) :
    instruction.opcode = .store ∨ instruction.opcode = .read := by
  cases h with
  | store _ _ hOpcode => exact .inl hOpcode
  | read _ _ hOpcode => exact .inr hOpcode
  | declare _ _ _ hValue =>
    rw [Instruction.target_of_immediate hLiteral] at hValue
    simp only [literalValue, Decimal.int32?_equals_append] at hValue
    cases hValue

/-- A step on an instruction with a literal for its operand writes only for a `STORE` or a `READ`,
and then the variable with the literal's name, equals sign included. It leaves the memory as it was
exactly if it does not come to write there, or writes what is there already. What any instruction
decides does not depend on such a variable. -/
theorem memory_of_immediate_iff (config : Config) {literal : String}
    (hFound : program.get? session.state.counter = some instruction)
    (hLiteral : instruction.operandForm? = some (.immediate literal)) :
    (∀ value, Writes config program session instruction value →
      (instruction.opcode = .store ∨ instruction.opcode = .read) ∧
        (final (step config program session)).state.memory =
          session.state.memory.insert ("=" ++ literal) value) ∧
    ((final (step config program session)).state.memory = session.state.memory ↔
      ∀ value, Writes config program session instruction value →
        session.state.get? ("=" ++ literal) = some value) ∧
    ∀ (state : MachineState) (value : Word) (other : Instruction) (index : Nat),
      (state.setVariable ("=" ++ literal) value).effect other index = state.effect other index := by
  have hWritten : ∀ value, Writes config program session instruction value →
      (instruction.opcode = .store ∨ instruction.opcode = .read) ∧
        (final (step config program session)).state.memory =
          session.state.memory.insert ("=" ++ literal) value := by
    intro value hWrites
    have hOpcode := hWrites.opcode_of_immediate hLiteral
    have hAssignee : instruction.assignee? = some ("=" ++ literal) := by
      rw [← Instruction.target_of_immediate hLiteral]
      rcases hOpcode with hOpcode | hOpcode <;> simp only [Instruction.assignee?, hOpcode]
    exact ⟨hOpcode, memory_of_writes hAssignee hWrites⟩
  refine ⟨hWritten, ⟨?_, ?_⟩, fun state value => state.effect_setVariable_equals literal value⟩
  · intro hSame value hWrites
    rw [(hWritten value hWrites).2] at hSame
    exact MachineState.insert_eq_self_iff.mp hSame
  · intro hThere
    by_cases hWrites : ∃ value, Writes config program session instruction value
    · obtain ⟨value, hWrites⟩ := hWrites
      rw [(hWritten value hWrites).2]
      exact MachineState.insert_eq_self_iff.mpr (hThere value hWrites)
    · exact memory_of_not_writes hFound (not_exists.mp hWrites)

/-- Reads into a literal. -/
def readIntoLiteral : Program :=
  ⟨#[⟨"READ =x", none, .read, some "=x"⟩], ∅, 3⟩

/-- A fresh machine with one word of input, whose output has room for the announcement of
`readIntoLiteral` and no more. -/
def mutedSession : Session Script Sink :=
  ⟨{}, ⟨["7"]⟩, { capacity := some 14 }⟩

theorem memory_of_immediate_iff_readIntoLiteral :
    Program.ofLines ["READ =x"] = .ok readIntoLiteral ∧
      ∃ instruction, readIntoLiteral.get? 0 = some instruction ∧
        instruction.operandForm? = some (.immediate "x") ∧
        Writes ⟨true, none⟩ readIntoLiteral mutedSession instruction 7 ∧
        ∃ failure after, step ⟨true, none⟩ readIntoLiteral mutedSession = .error failure after ∧
          after.state.memory = mutedSession.state.memory.insert "=x" 7 ∧
          after.state.memory ≠ mutedSession.state.memory := by
  have hFound : readIntoLiteral.get? mutedSession.state.counter = some _ := rfl
  have hRead : InputDevice.read mutedSession.input = .ok (7 : Word) ⟨[]⟩ := rfl
  have hWrites : Writes ⟨true, none⟩ readIntoLiteral mutedSession _ 7 :=
    .read (starts_of_showable (Program.showable_of_labelWidth_le (by decide)) hFound rfl)
      rfl rfl rfl hRead
  obtain ⟨hWritten, hKept, _⟩ := memory_of_immediate_iff ⟨true, none⟩ hFound rfl
  refine ⟨rfl, _, hFound, rfl, hWrites, _, _, rfl, (hWritten 7 hWrites).2, ?_⟩
  intro hSame
  have hThere := hKept.mp hSame 7 hWrites
  cases hThere

/-- A `STORE` with a literal for its operand sets a variable. -/
theorem exists_immediate_step_writing :
    ∃ program, Program.ofLines ["STORE =5"] = .ok program ∧
      ∃ (config : Config) (instruction : Instruction), Reachable config idleSession.state ∧
        program.get? idleSession.state.counter = some instruction ∧
        instruction.operandForm? = some (.immediate "5") ∧
        idleSession.state.get? "=5" = none ∧
        (final (step config program idleSession)).state.get? "=5" = some 0 :=
  ⟨_, rfl, ⟨false, none⟩, _, .fresh, rfl, rfl, rfl, rfl⟩

end Execution

end Accumulator
