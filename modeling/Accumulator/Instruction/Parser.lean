import Accumulator.Instruction

/-! # Reading a source line

A line has the fields `LABEL OPCODE OPERAND`, `OPCODE OPERAND` or `LABEL OPCODE`. Of two fields
the first is the operation if it is a mnemonic, and a label if not.
-/

namespace Accumulator.Instruction

set_option autoImplicit false

def requireOpcode (word : String) : Except Fault Opcode :=
  match Opcode.ofMnemonic? word with
  | some opcode => .ok opcode
  | none => .error (.unknownOpcode word)

/-- Refuses an instruction whose operand or label does not fit its operation. -/
def requireShape (instruction : Instruction) : Except Fault Instruction :=
  if instruction.WellShaped then .ok instruction else .error (.invalidLine instruction.source)

def parse (line : String) : Except Fault Instruction :=
  match Text.fields line with
  | [label, word, operand] => do
    let opcode ← requireOpcode word
    requireShape ⟨line, some label, opcode, some operand⟩
  | [first, second] =>
    match Opcode.ofMnemonic? first with
    | some opcode => requireShape ⟨line, none, opcode, some second⟩
    | none => do
      let opcode ← requireOpcode second
      requireShape ⟨line, some first, opcode, none⟩
  | _ => .error (.invalidLine line)

theorem requireShape_eq_ok_iff {instruction result : Instruction} :
    requireShape instruction = .ok result ↔ instruction.WellShaped ∧ instruction = result := by
  unfold requireShape
  split <;> simp_all

/-- A line is kept as written, and what it is read as has the shape of its operation. -/
theorem source_eq_of_parse {line : String} {instruction : Instruction}
    (h : parse line = .ok instruction) :
    instruction.source = line ∧ instruction.WellShaped := by
  have hShape : ∀ candidate : Instruction, candidate.source = line →
      requireShape candidate = .ok instruction →
      instruction.source = line ∧ instruction.WellShaped := by
    intro candidate hSource hResult
    obtain ⟨hWell, rfl⟩ := requireShape_eq_ok_iff.mp hResult
    exact ⟨hSource, hWell⟩
  unfold parse at h
  split at h
  · rename_i label word operand _
    cases hWord : requireOpcode word with
    | error fault => rw [hWord] at h; cases h
    | ok opcode => rw [hWord] at h; exact hShape _ rfl h
  · rename_i first second _
    split at h
    · exact hShape _ rfl h
    · cases hWord : requireOpcode second with
      | error fault => rw [hWord] at h; cases h
      | ok opcode => rw [hWord] at h; exact hShape _ rfl h
  · cases h

end Accumulator.Instruction
