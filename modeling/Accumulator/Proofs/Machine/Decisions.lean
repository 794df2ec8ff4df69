import Accumulator.Machine.Effect
import Accumulator.Proofs.Failure

/-! # What an instruction decides

The effect of an instruction is fixed by its operation, its operand and label as written, and the
values in the machine state. A fault found here always names the instruction.
-/

namespace Accumulator

set_option autoImplicit false

namespace Opcode

/-- An arithmetic operation makes the result of the accumulator and the value of its operand. -/
inductive Computes (accumulator value : Word) : Opcode → Word → Prop
  | load : Computes accumulator value .load value
  | add : Computes accumulator value .add (Word.sum accumulator value)
  | subtract : Computes accumulator value .subtract (Word.difference accumulator value)
  | multiply : Computes accumulator value .multiply (Word.product accumulator value)
  | divide {quotient : Word} (hQuotient : Word.quotient? accumulator value = some quotient) :
      Computes accumulator value .divide quotient

def taken (accumulator : Word) : Opcode → Bool
  | .branchIfZero => accumulator = 0
  | .branchIfPositive => 0 < accumulator
  | .branchIfNegative => accumulator < 0
  | .branchAlways => true
  | _ => false

def isArithmetic : Opcode → Bool
  | load | add | subtract | multiply | divide => true
  | _ => false

/-- The operations that use the value of their operand. -/
def usesValue (opcode : Opcode) : Bool :=
  opcode.isArithmetic || opcode == print

theorem Computes.isArithmetic {opcode : Opcode} {accumulator value result : Word}
    (h : opcode.Computes accumulator value result) : opcode.isArithmetic = true := by
  cases h <;> rfl

end Opcode

namespace MachineState

variable {state : MachineState} {instruction : Instruction}

inductive Decides (state : MachineState) (instruction : Instruction) (index : Nat) : Effect → Prop
  | compute {value result : Word}
      (hValue : state.operandValue instruction (instruction.site index) = .ok value)
      (hComputes : instruction.opcode.Computes state.accumulator value result) :
      Decides state instruction index (.compute result)
  | store (hOpcode : instruction.opcode = .store) :
      Decides state instruction index (.store instruction.target state.accumulator)
  | declare {value : Word} (hOpcode : instruction.opcode = .declare)
      (hValue : literalValue instruction.target (instruction.site index) = .ok value) :
      Decides state instruction index (.store instruction.name value)
  | print {value : Word} (hOpcode : instruction.opcode = .print)
      (hValue : state.operandValue instruction (instruction.site index) = .ok value) :
      Decides state instruction index (.print instruction.target value)
  | branch {taken : Bool} (hBranch : instruction.opcode.isBranch = true)
      (hTaken : taken = instruction.opcode.taken state.accumulator) :
      Decides state instruction index (.branch taken instruction.target)
  | read (hOpcode : instruction.opcode = .read) :
      Decides state instruction index (.read instruction.target)
  | halt (hOpcode : instruction.opcode = .halt) : Decides state instruction index .halt

theorem decides_of_effect {index : Nat} {effect : Effect}
    (h : state.effect instruction index = .ok effect) :
    Decides state instruction index effect := by
  unfold MachineState.effect at h
  cases hOpcode : instruction.opcode with
  | load | add | subtract | multiply =>
    rw [hOpcode] at h
    obtain ⟨value, hValue, hEffect⟩ := exists_of_bind_eq_ok h
    cases hEffect
    refine .compute hValue ?_
    rw [hOpcode]
    constructor
  | store =>
    rw [hOpcode] at h
    cases h
    exact .store hOpcode
  | divide =>
    rw [hOpcode] at h
    obtain ⟨value, hValue, hEffect⟩ := exists_of_bind_eq_ok h
    split at hEffect
    · rename_i quotient hQuotient
      cases hEffect
      exact .compute hValue (hOpcode ▸ .divide hQuotient)
    · cases hEffect
  | branchIfZero | branchIfPositive | branchIfNegative | branchAlways =>
    rw [hOpcode] at h
    cases h
    exact .branch (by rw [hOpcode]; rfl) (by rw [hOpcode]; rfl)
  | read =>
    rw [hOpcode] at h
    cases h
    exact .read hOpcode
  | print =>
    rw [hOpcode] at h
    obtain ⟨value, hValue, hEffect⟩ := exists_of_bind_eq_ok h
    cases hEffect
    exact .print hOpcode hValue
  | declare =>
    rw [hOpcode] at h
    obtain ⟨value, hValue, hEffect⟩ := exists_of_bind_eq_ok h
    cases hEffect
    exact .declare hOpcode hValue
  | halt =>
    rw [hOpcode] at h
    cases h
    exact .halt hOpcode

theorem effect_of_decides {index : Nat} {effect : Effect}
    (h : Decides state instruction index effect) : state.effect instruction index = .ok effect := by
  unfold MachineState.effect
  cases h with
  | compute hValue hComputes =>
    generalize instruction.opcode = opcode at hComputes ⊢
    cases hComputes with
    | load | add | subtract | multiply =>
      simp only [computeWith, hValue]
      rfl
    | divide hQuotient =>
      simp only [hValue, bind, Except.bind, hQuotient]
  | branch hBranch hTaken =>
    subst hTaken
    generalize instruction.opcode = opcode at hBranch ⊢
    cases opcode <;> first | rfl | cases hBranch
  | declare hOpcode hValue | print hOpcode hValue =>
    simp only [hOpcode, hValue]
    rfl
  | store hOpcode | read hOpcode | halt hOpcode => simp only [hOpcode]

theorem Decides.eq_read {index : Nat} {effect : Effect}
    (h : Decides state instruction index effect) (hOpcode : instruction.opcode = .read) :
    effect = .read instruction.target := by
  have hEffect := effect_of_decides h
  rw [MachineState.effect, hOpcode] at hEffect
  cases hEffect
  rfl

theorem Decides.eq_halt {index : Nat} {effect : Effect}
    (h : Decides state instruction index effect) (hOpcode : instruction.opcode = .halt) :
    effect = .halt := by
  have hEffect := effect_of_decides h
  rw [MachineState.effect, hOpcode] at hEffect
  cases hEffect
  rfl

/-! ## Faults of evaluation -/

theorem eq_of_literalValue_error {literal : String} {site : Site} {fault : Fault}
    (h : literalValue literal site = .error fault) : fault = .invalidNumber literal site := by
  unfold literalValue at h
  split at h
  · cases h
  · cases h
    rfl

theorem site?_of_literalValue_error {literal : String} {site : Site} {fault : Fault}
    (h : literalValue literal site = .error fault) : fault.site? = some site := by
  cases eq_of_literalValue_error h
  rfl

theorem site?_of_operandValue_error {site : Site} {fault : Fault}
    (h : state.operandValue instruction site = .error fault) : fault.site? = some site := by
  unfold operandValue at h
  split at h
  · exact site?_of_literalValue_error h
  · split at h
    · cases h
    · cases h
      rfl
  · cases h
    rfl

inductive Faults (state : MachineState) (instruction : Instruction) (index : Nat) : Fault → Prop
  | operand {fault : Fault} (hUses : instruction.opcode.usesValue = true)
      (hValue : state.operandValue instruction (instruction.site index) = .error fault) :
      Faults state instruction index fault
  | literal {fault : Fault} (hOpcode : instruction.opcode = .declare)
      (hValue : literalValue instruction.target (instruction.site index) = .error fault) :
      Faults state instruction index fault
  | division (hOpcode : instruction.opcode = .divide) :
      Faults state instruction index
        (.divisionByZero instruction.target (instruction.site index))

theorem faults_of_effect {index : Nat} {fault : Fault}
    (h : state.effect instruction index = .error fault) :
    Faults state instruction index fault := by
  unfold MachineState.effect at h
  cases hOpcode : instruction.opcode with
  | load | add | subtract | multiply | print =>
    rw [hOpcode] at h
    rcases eq_error_or_of_bind_eq_error h with hValue | ⟨_, _, hEffect⟩
    · exact .operand (by rw [hOpcode]; rfl) hValue
    · cases hEffect
  | divide =>
    rw [hOpcode] at h
    rcases eq_error_or_of_bind_eq_error h with hValue | ⟨_, _, hEffect⟩
    · exact .operand (by rw [hOpcode]; rfl) hValue
    · split at hEffect
      · cases hEffect
      · cases hEffect
        exact .division hOpcode
  | declare =>
    rw [hOpcode] at h
    rcases eq_error_or_of_bind_eq_error h with hValue | ⟨_, _, hEffect⟩
    · exact .literal hOpcode hValue
    · cases hEffect
  | store | branchIfZero | branchIfPositive | branchIfNegative | branchAlways | read | halt =>
    rw [hOpcode] at h
    cases h

theorem site?_of_effect_error {index : Nat} {fault : Fault}
    (h : state.effect instruction index = .error fault) :
    fault.site? = some (instruction.site index) := by
  cases faults_of_effect h with
  | operand _ hValue => exact site?_of_operandValue_error hValue
  | literal _ hValue => exact site?_of_literalValue_error hValue
  | division => rfl

end MachineState

/-- Only faults of a run have a site. -/
theorem Fault.isStatic_eq_false_of_site? {fault : Fault} {site : Site}
    (h : fault.site? = some site) : fault.isStatic = false := by
  cases fault <;> first | rfl | cases h

theorem Fault.faultClass_eq_runtime_iff {fault : Fault} :
    fault.faultClass = .runtime ↔ ∃ site, fault.site? = some site := by
  cases fault <;> simp [faultClass, site?]

theorem Fault.index?_of_site? {fault : Fault} {site : Site} (h : fault.site? = some site) :
    fault.index? = some site.index := by
  cases fault <;> first | (cases h; rfl) | cases h

end Accumulator
