import Accumulator.Proofs.Machine.Decisions
import Accumulator.Proofs.Machine.Steps
import Accumulator.Proofs.Word.Exact

/-! # The range of the machine

Whatever is run or stepped on a machine, its accumulator and its variables stay reduced words:
each operation either reduces its result, copies a reduced word or divides one. So the 64 bits of
a word are never exceeded, and the sign that a branch tests is that of the exact result up to the
modulus.
-/

namespace Accumulator

set_option autoImplicit false

namespace MachineState

structure Bounded (state : MachineState) : Prop where
  accumulator : Word.Reduced state.accumulator
  memory : ∀ name value, state.get? name = some value → Word.Reduced value

theorem get?_setVariable (state : MachineState) (name other : String) (value : Word) :
    (state.setVariable name value).get? other =
      if name = other then some value else state.get? other := by
  simp [get?, setVariable, Std.ExtTreeMap.getElem?_insert]

theorem bounded_zero : Bounded {} where
  accumulator := by decide
  memory name value h := by simp [get?] at h

theorem Bounded.setAccumulator {state : MachineState} {value : Word} (h : state.Bounded)
    (hValue : Word.Reduced value) : (state.setAccumulator value).Bounded :=
  ⟨hValue, h.memory⟩

theorem Bounded.setVariable {state : MachineState} {value : Word} (h : state.Bounded)
    (hValue : Word.Reduced value) (name : String) : (state.setVariable name value).Bounded := by
  refine ⟨h.accumulator, ?_⟩
  intro other found hFound
  rw [get?_setVariable] at hFound
  split at hFound
  · cases hFound
    exact hValue
  · exact h.memory other found hFound

theorem reduced_of_literalValue {literal : String} {site : Site} {value : Word}
    (h : literalValue literal site = .ok value) : Word.Reduced value := by
  unfold literalValue at h
  split at h
  · cases h
    exact Word.reduced_reduce _
  · cases h

theorem Bounded.operandValue {state : MachineState} {instruction : Instruction} {site : Site}
    {value : Word} (h : state.Bounded) (hValue : state.operandValue instruction site = .ok value) :
    Word.Reduced value := by
  unfold MachineState.operandValue at hValue
  split at hValue
  · exact reduced_of_literalValue hValue
  · split at hValue
    · rename_i hStored
      cases hValue
      exact h.memory _ _ hStored
    · cases hValue
  · cases hValue

end MachineState

theorem Opcode.Computes.reduced {opcode : Opcode} {accumulator value result : Word}
    (h : opcode.Computes accumulator value result) (hAccumulator : Word.Reduced accumulator)
    (hValue : Word.Reduced value) : Word.Reduced result := by
  cases h with
  | load => exact hValue
  | add | subtract | multiply => exact Word.reduced_reduce _
  | divide hQuotient => exact Word.reduced_quotient hAccumulator hQuotient

namespace Execution

section Steps

variable {ι ω : Type} [InputDevice ι] [OutputDevice ω]

theorem Commits.bounded {effect : Effect} {session committed : Session ι ω} {line : String}
    {instruction : Instruction} {index : Nat} (h : Commits effect session committed line)
    (hDecides : session.state.Decides instruction index effect) (hBounded : session.state.Bounded) :
    committed.state.Bounded := by
  cases h with
  | compute result =>
    cases hDecides with
    | compute hValue hComputes =>
      exact hBounded.setAccumulator
        (hComputes.reduced hBounded.accumulator (hBounded.operandValue hValue))
  | store name value =>
    cases hDecides with
    | store => exact hBounded.setVariable hBounded.accumulator _
    | declare _ hValue => exact hBounded.setVariable (MachineState.reduced_of_literalValue hValue) _
  | read name => exact hBounded.setVariable (Word.reduced_reduce _) name

theorem bounded_step (config : Config) (program : Program) (session : Session ι ω)
    (h : session.state.Bounded) : (final (step config program session)).state.Bounded := by
  have hWrites : ∀ {instruction : Instruction} {effect : Effect}
      {announced committed : Session ι ω} {line : String},
      Issues config program session instruction effect announced →
      Commits effect announced committed line → committed.state.Bounded := by
    intro instruction effect announced committed line hIssues hCommits
    have hDecides := MachineState.decides_of_effect hIssues.decided
    obtain ⟨_, rfl⟩ := hIssues.announced_eq
    exact hCommits.bounded hDecides h
  cases hStep : step config program session with
  | ok outcome after =>
    cases step_ok hStep with
    | ranOff => exact h
    | write hIssues hCommits =>
      obtain ⟨hAccumulator, hMemory⟩ := hWrites hIssues hCommits
      exact ⟨hAccumulator, hMemory⟩
    | proceed | halt => exact ⟨h.accumulator, h.memory⟩
  | error failure after =>
    cases step_error hStep with
    | limit | crash | announcement | evaluation | refusal => exact h
    | echo hIssues hCommits =>
      have hCommitted := hWrites hIssues hCommits
      exact hCommitted

end Steps

/-- The states of a machine with the given settings, after any runs and steps of built programs
on any devices. -/
inductive Reachable (config : Config) : MachineState → Prop
  | fresh : Reachable config {}
  | step {ι ω : Type} [InputDevice ι] [OutputDevice ω] {instructions : List Instruction}
      {program : Program} (session : Session ι ω)
      (hBuild : Program.build instructions = .ok program)
      (hBefore : Reachable config session.state) :
      Reachable config (final (Execution.step config program session)).state
  | run {ι ω : Type} [InputDevice ι] [OutputDevice ω] {instructions : List Instruction}
      {program : Program} {fuel : Nat} (session : Session ι ω) {result : RunResult ι ω}
      (hBuild : Program.build instructions = .ok program)
      (hBefore : Reachable config session.state)
      (hRun : Execution.run fuel config program session = some result) :
      Reachable config (final result).state

/-- Every reachable machine is in range, so its arithmetic is exact up to the modulus. -/
theorem reachable_bounded_and_exact {config : Config} {state : MachineState}
    (h : Reachable config state) :
    state.Bounded ∧ ∀ instruction site value,
      state.operandValue instruction site = .ok value → Word.Exact state.accumulator value := by
  have hBounded : state.Bounded := by
    induction h with
    | fresh => exact MachineState.bounded_zero
    | step session _ _ ih => exact bounded_step _ _ session ih
    | run session _ _ hRun => exact final_run MachineState.bounded_zero (bounded_step _ _) hRun
  refine ⟨hBounded, ?_⟩
  intro instruction site value hValue
  exact Word.exact_of_reduced hBounded.accumulator (hBounded.operandValue hValue)

/-- A product of two words at the edge of the range. -/
def edgeProduct : Program :=
  ⟨#[⟨"LOAD =-1999999", none, .load, some "=-1999999"⟩,
    ⟨"MULT =1999999", none, .multiply, some "=1999999"⟩], ∅, 3⟩

theorem reachable_bounded_and_exact_edgeProduct :
    ∃ state, Reachable ⟨false, none⟩ state ∧ state.accumulator = -1 ∧ state.Bounded ∧
      ∀ instruction site value,
        state.operandValue instruction site = .ok value → Word.Exact state.accumulator value := by
  have hBuild : Program.build edgeProduct.instructions.toList = .ok edgeProduct := rfl
  have hRun : run 3 ⟨false, none⟩ edgeProduct idleSession = some _ := rfl
  have hReachable := Reachable.run idleSession hBuild .fresh hRun
  exact ⟨_, hReachable, by decide +kernel, reachable_bounded_and_exact hReachable⟩

end Execution

end Accumulator
