import Accumulator.Instruction.Parser
import Accumulator.Proofs.Failure
import Accumulator.Proofs.Text.Runs

/-! # The grammar of a line

A line is an instruction with all three fields, one without a label, or an `END` with its label.
Of the other lines, those that have a word in the place of the operation which names none are
refused for that word, and all the rest as lines.
-/

namespace Accumulator.Instruction

set_option autoImplicit false

variable {line : String}

/-- The three shapes of a line, with the instructions that they are read as. -/
inductive Reads (line : String) : Instruction → Prop
  | full {label word operand : String} {opcode : Opcode}
      (hFields : Text.fields line = [label, word, operand])
      (hWord : Opcode.ofMnemonic? word = some opcode) (hOpcode : opcode ≠ .halt) :
      Reads line ⟨line, some label, opcode, some operand⟩
  | unlabelled {word operand : String} {opcode : Opcode}
      (hFields : Text.fields line = [word, operand])
      (hWord : Opcode.ofMnemonic? word = some opcode) (hOpcode : opcode ≠ .halt)
      (hCode : opcode ≠ .declare) : Reads line ⟨line, none, opcode, some operand⟩
  | last {label word : String} (hFields : Text.fields line = [label, word])
      (hLabel : Opcode.ofMnemonic? label = none)
      (hWord : Opcode.ofMnemonic? word = some .halt) :
      Reads line ⟨line, some label, .halt, none⟩

theorem Reads.isRun_label {instruction : Instruction} (h : Reads line instruction) :
    ∀ label ∈ instruction.label, Text.IsRun Text.isGap label := by
  intro label hLabel
  suffices hField : label ∈ Text.fields line from Text.isRun_of_mem_runs hField
  cases h with
  | full hFields | last hFields =>
    cases hLabel
    rw [hFields]
    exact List.mem_cons_self
  | unlabelled => cases hLabel

theorem Reads.isRun_operand {instruction : Instruction} (h : Reads line instruction) :
    ∀ operand ∈ instruction.operand, Text.IsRun Text.isGap operand := by
  intro operand hOperand
  suffices hField : operand ∈ Text.fields line from Text.isRun_of_mem_runs hField
  cases h with
  | full hFields | unlabelled hFields =>
    cases hOperand
    rw [hFields]
    simp
  | last => cases hOperand

theorem requireOpcode_eq_ok_iff {word : String} {opcode : Opcode} :
    requireOpcode word = .ok opcode ↔ Opcode.ofMnemonic? word = some opcode := by
  unfold requireOpcode
  split <;> simp_all

theorem parse_eq_ok_iff {instruction : Instruction} :
    parse line = .ok instruction ↔ Reads line instruction := by
  constructor
  · intro h
    unfold parse at h
    split at h
    · rename_i label word operand hFields
      obtain ⟨opcode, hOpcode, hShape⟩ := exists_of_bind_eq_ok h
      obtain ⟨⟨hOperand, _⟩, rfl⟩ := requireShape_eq_ok_iff.mp hShape
      exact .full hFields (requireOpcode_eq_ok_iff.mp hOpcode)
        (Opcode.takesOperand_eq_true_iff.mp hOperand)
    · rename_i first second hFields
      split at h
      · rename_i opcode hWord
        obtain ⟨⟨hOperand, hLabel⟩, rfl⟩ := requireShape_eq_ok_iff.mp h
        refine .unlabelled hFields hWord (Opcode.takesOperand_eq_true_iff.mp hOperand) ?_
        intro hDeclare
        have hSome := hLabel hDeclare
        cases hSome
      · rename_i hLabel
        obtain ⟨opcode, hOpcode, hShape⟩ := exists_of_bind_eq_ok h
        obtain ⟨⟨hOperand, _⟩, rfl⟩ := requireShape_eq_ok_iff.mp hShape
        have hHalt : opcode = .halt := by simpa [Opcode.takesOperand] using hOperand
        subst hHalt
        exact .last hFields hLabel (requireOpcode_eq_ok_iff.mp hOpcode)
    · cases h
  · intro h
    cases h with
    | full hFields hWord hOpcode =>
      rw [parse, hFields]
      dsimp only
      rw [requireOpcode_eq_ok_iff.mpr hWord]
      refine requireShape_eq_ok_iff.mpr ⟨⟨?_, fun _ => rfl⟩, rfl⟩
      exact Opcode.takesOperand_eq_true_iff.mpr hOpcode
    | unlabelled hFields hWord hOpcode hCode =>
      rw [parse, hFields]
      dsimp only
      rw [hWord]
      refine requireShape_eq_ok_iff.mpr ⟨⟨?_, fun hDeclare => absurd hDeclare hCode⟩, rfl⟩
      exact Opcode.takesOperand_eq_true_iff.mpr hOpcode
    | @last label word hFields hLabel hWord =>
      rw [parse, hFields]
      dsimp only
      rw [hLabel, requireOpcode_eq_ok_iff.mpr hWord]
      change requireShape ⟨line, some label, .halt, none⟩ = _
      refine requireShape_eq_ok_iff.mpr ⟨⟨rfl, ?_⟩, rfl⟩
      intro hDeclare
      cases hDeclare

/-- The second field of a line has to name its operation, and names none. Of two fields it has to
do so only if the first does not. -/
inductive Misnames (line : String) : String → Prop
  | full {label word operand : String} (hFields : Text.fields line = [label, word, operand])
      (hWord : Opcode.ofMnemonic? word = none) : Misnames line word
  | last {label word : String} (hFields : Text.fields line = [label, word])
      (hLabel : Opcode.ofMnemonic? label = none) (hWord : Opcode.ofMnemonic? word = none) :
      Misnames line word

theorem requireOpcode_eq_error_iff {word : String} {fault : Fault} :
    requireOpcode word = .error fault ↔
      Opcode.ofMnemonic? word = none ∧ fault = .unknownOpcode word := by
  unfold requireOpcode
  cases Opcode.ofMnemonic? word with
  | none => simp [eq_comm]
  | some opcode => simp

theorem eq_of_parse_error {fault : Fault} (h : parse line = .error fault) :
    fault = .invalidLine line ∨ ∃ word, fault = .unknownOpcode word ∧ Misnames line word := by
  have hShaped : ∀ {candidate : Instruction}, candidate.source = line →
      requireShape candidate = .error fault → fault = .invalidLine line := by
    intro candidate hSource hShape
    unfold requireShape at hShape
    split at hShape
    · cases hShape
    · cases hShape
      rw [hSource]
  unfold parse at h
  split at h
  · rename_i label word operand hFields
    rcases eq_error_or_of_bind_eq_error h with hOpcode | ⟨opcode, _, hShape⟩
    · obtain ⟨hWord, rfl⟩ := requireOpcode_eq_error_iff.mp hOpcode
      exact .inr ⟨word, rfl, .full hFields hWord⟩
    · exact .inl (hShaped rfl hShape)
  · rename_i first second hFields
    split at h
    · exact .inl (hShaped rfl h)
    · rename_i hLabel
      rcases eq_error_or_of_bind_eq_error h with hOpcode | ⟨opcode, _, hShape⟩
      · obtain ⟨hWord, rfl⟩ := requireOpcode_eq_error_iff.mp hOpcode
        exact .inr ⟨second, rfl, .last hFields hLabel hWord⟩
      · exact .inl (hShaped rfl hShape)
  · cases h
    exact .inl rfl

theorem parse_eq_unknownOpcode_iff {word : String} :
    parse line = .error (.unknownOpcode word) ↔ Misnames line word := by
  constructor
  · intro h
    rcases eq_of_parse_error h with hInvalid | ⟨found, hFault, hMisnames⟩
    · cases hInvalid
    · cases hFault
      exact hMisnames
  · intro h
    cases h with
    | full hFields hWord =>
      rw [parse, hFields]
      dsimp only
      rw [requireOpcode_eq_error_iff.mpr ⟨hWord, rfl⟩]
      rfl
    | last hFields hLabel hWord =>
      rw [parse, hFields]
      dsimp only
      rw [hLabel, requireOpcode_eq_error_iff.mpr ⟨hWord, rfl⟩]
      rfl

theorem parse_eq_invalidLine_iff :
    parse line = .error (.invalidLine line) ↔
      (∀ instruction, ¬ Reads line instruction) ∧ ∀ word, ¬ Misnames line word := by
  constructor
  · intro h
    refine ⟨fun instruction hReads => ?_, fun word hMisnames => ?_⟩
    · rw [parse_eq_ok_iff.mpr hReads] at h
      cases h
    · rw [parse_eq_unknownOpcode_iff.mpr hMisnames] at h
      cases h
  · rintro ⟨hReads, hMisnames⟩
    cases hParse : parse line with
    | ok instruction => exact absurd (parse_eq_ok_iff.mp hParse) (hReads instruction)
    | error fault =>
      rcases eq_of_parse_error hParse with rfl | ⟨word, _, hWord⟩
      · rfl
      · exact absurd hWord (hMisnames word)

/-- The fields of a line are its maximal runs without spaces and tabs, and a field names the
operation whose mnemonic it is up to the case of its letters. On these the grammar decides what
the line is read as, or for what it is refused. -/
theorem parse_grammar (line : String) :
    (∀ words, Text.HasRuns Text.isGap line.toList words ↔ words = Text.fields line) ∧
    (∀ word opcode, Opcode.ofMnemonic? word = some opcode ↔
      word.toList.map Char.toUpper = opcode.mnemonic.toList) ∧
    (∀ instruction, parse line = .ok instruction ↔ Reads line instruction) ∧
    (∀ word, parse line = .error (.unknownOpcode word) ↔ Misnames line word) ∧
    (parse line = .error (.invalidLine line) ↔
      (∀ instruction, ¬ Reads line instruction) ∧ ∀ word, ¬ Misnames line word) :=
  ⟨fun _ => Text.hasRuns_iff, fun _ _ => Opcode.ofMnemonic?_eq_some_iff,
    fun _ => parse_eq_ok_iff, fun _ => parse_eq_unknownOpcode_iff, parse_eq_invalidLine_iff⟩

end Accumulator.Instruction
