import Accumulator.Program

/-! # Labels of a built program

The symbol table of a built program holds exactly the labels that its instructions carry, each
once, and every branch finds its label there. The table is filled from the front, so its lemma
is about the labels from some index on, added to a table that is already there.
-/

namespace Accumulator.Program

set_option autoImplicit false

/-- An instruction of the list, which starts at `index`, defines the label. -/
def Defines (instructions : List Instruction) (index : Nat) (label : String) (symbol : Symbol) :
    Prop :=
  ∃ offset instruction, instructions[offset]? = some instruction ∧
    instruction.label = some label ∧ symbol = ⟨index + offset, instruction.symbolKind⟩

theorem not_defines_nil {index : Nat} {label : String} {symbol : Symbol} :
    ¬ Defines [] index label symbol := by
  rintro ⟨_, _, hFound, _⟩
  cases hFound

theorem defines_cons_iff {instruction : Instruction} {rest : List Instruction} {index : Nat}
    {label : String} {symbol : Symbol} :
    Defines (instruction :: rest) index label symbol ↔
      (instruction.label = some label ∧ symbol = ⟨index, instruction.symbolKind⟩) ∨
        Defines rest (index + 1) label symbol := by
  constructor
  · rintro ⟨offset, found, hFound, hLabel, hSymbol⟩
    cases offset with
    | zero =>
      cases hFound
      exact .inl ⟨hLabel, hSymbol⟩
    | succ offset =>
      refine .inr ⟨offset, found, hFound, hLabel, ?_⟩
      rw [hSymbol, Nat.add_right_comm, Nat.add_assoc]
  · rintro (⟨hLabel, hSymbol⟩ | ⟨offset, found, hFound, hLabel, hSymbol⟩)
    · exact ⟨0, instruction, rfl, hLabel, hSymbol⟩
    · refine ⟨offset + 1, found, hFound, hLabel, ?_⟩
      rw [hSymbol, Nat.add_right_comm, Nat.add_assoc]

theorem getElem?_of_defineLabels {instructions : List Instruction} {symbols table : SymbolTable}
    {index : Nat} (h : defineLabels symbols index instructions = .ok table) (label : String)
    (symbol : Symbol) :
    table[label]? = some symbol ↔
      symbols[label]? = some symbol ∨ Defines instructions index label symbol := by
  induction instructions generalizing symbols index with
  | nil =>
    cases h
    exact (or_iff_left not_defines_nil).symm
  | cons instruction rest ih =>
    rw [defines_cons_iff]
    rw [defineLabels] at h
    split at h
    · rename_i hLabel
      rw [ih h, hLabel]
      simp
    · rename_i name hLabel
      split at h
      · cases h
      · rename_i hNew
        rw [ih h, hLabel, Std.ExtTreeMap.getElem?_insert]
        rw [Std.ExtTreeMap.mem_iff_isSome_getElem?] at hNew
        by_cases hSame : name = label
        · subst hSame
          have hNone : symbols[name]? = none := by simpa using hNew
          simp [hNone, eq_comm]
        · simp [hSame]

theorem checkBranches_eq_ok_iff {symbols : SymbolTable} {instructions : List Instruction}
    {index : Nat} :
    checkBranches symbols index instructions = .ok () ↔
      ∀ instruction ∈ instructions, instruction.opcode.isBranch = true →
        symbols.jumpTarget? instruction.target ≠ none := by
  induction instructions generalizing index with
  | nil => simp [checkBranches]
  | cons instruction rest ih =>
    rw [checkBranches, List.forall_mem_cons]
    split
    · rename_i hUndefined
      simp [hUndefined.1, hUndefined.2]
    · rename_i hDefined
      rw [ih]
      exact (and_iff_right fun hBranch hNone => hDefined ⟨hBranch, hNone⟩).symm

/-! ## The whole table -/

theorem symbols_of_defineLabels {instructions : List Instruction} {symbols : SymbolTable}
    (h : defineLabels ∅ 0 instructions = .ok symbols) (label : String) (symbol : Symbol) :
    symbols[label]? = some symbol ↔
      ∃ instruction, instructions[symbol.index]? = some instruction ∧
        instruction.label = some label ∧ symbol.kind = instruction.symbolKind := by
  rw [getElem?_of_defineLabels h]
  constructor
  · rintro (hEmpty | ⟨index, instruction, hFound, hLabel, rfl⟩)
    · simp at hEmpty
    · exact ⟨instruction, by simpa using hFound, hLabel, rfl⟩
  · rintro ⟨instruction, hFound, hLabel, hKind⟩
    refine .inr ⟨symbol.index, instruction, hFound, hLabel, ?_⟩
    rw [← hKind, Nat.zero_add]

theorem code_eq_symbolKind_iff {instruction : Instruction} :
    .code = instruction.symbolKind ↔ instruction.opcode ≠ .declare := by
  unfold Instruction.symbolKind
  split <;> simp_all

theorem jumpTarget?_eq_some_iff {symbols : SymbolTable} {label : String} {target : Nat} :
    symbols.jumpTarget? label = some target ↔ symbols[label]? = some ⟨target, .code⟩ := by
  unfold SymbolTable.jumpTarget?
  split <;> grind

theorem jumpTarget?_of_defineLabels {instructions : List Instruction} {symbols : SymbolTable}
    (h : defineLabels ∅ 0 instructions = .ok symbols) (label : String) (target : Nat) :
    symbols.jumpTarget? label = some target ↔
      ∃ instruction, instructions[target]? = some instruction ∧
        instruction.label = some label ∧ instruction.opcode ≠ .declare := by
  rw [jumpTarget?_eq_some_iff, symbols_of_defineLabels h]
  simp only [code_eq_symbolKind_iff]

/-! ## Refused programs -/

def CarriesAt (instructions : List Instruction) (index : Nat) (label : String) : Prop :=
  ∃ instruction, instructions[index]? = some instruction ∧ instruction.label = some label

theorem carriesAt_zero_iff {instruction : Instruction} {rest : List Instruction} {label : String} :
    CarriesAt (instruction :: rest) 0 label ↔ instruction.label = some label := by
  simp [CarriesAt]

theorem carriesAt_succ_iff {instruction : Instruction} {rest : List Instruction} {index : Nat}
    {label : String} :
    CarriesAt (instruction :: rest) (index + 1) label ↔ CarriesAt rest index label := by
  simp [CarriesAt]

/-- The label at `index` is in the table already, or an earlier instruction of the list carries
it. -/
def Clashes (symbols : SymbolTable) (instructions : List Instruction) (index : Nat)
    (label : String) : Prop :=
  CarriesAt instructions index label ∧
    (label ∈ symbols ∨ ∃ earlier, earlier < index ∧ CarriesAt instructions earlier label)

/-- The property holds at the index and at none before it. -/
def FirstAt (P : Nat → String → Prop) (index : Nat) (label : String) : Prop :=
  P index label ∧ ∀ earlier other, earlier < index → ¬ P earlier other

theorem firstAt_succ {P Q : Nat → String → Prop} {index : Nat} {label : String}
    (hNext : ∀ index label, Q (index + 1) label ↔ P index label) (hZero : ∀ label, ¬ Q 0 label)
    (h : FirstAt P index label) : FirstAt Q (index + 1) label := by
  refine ⟨(hNext index label).mpr h.1, ?_⟩
  intro earlier other hEarlier
  cases earlier with
  | zero => exact hZero other
  | succ earlier =>
    rw [hNext]
    exact h.2 earlier other (Nat.lt_of_succ_lt_succ hEarlier)

section Clashes

variable {instruction : Instruction} {rest : List Instruction} {symbols : SymbolTable}
  {label : String}

theorem clashes_zero_iff :
    Clashes symbols (instruction :: rest) 0 label ↔
      instruction.label = some label ∧ label ∈ symbols := by
  simp [Clashes, carriesAt_zero_iff]

theorem exists_carriesAt_lt_succ_iff {index : Nat} :
    (∃ earlier, earlier < index + 1 ∧ CarriesAt (instruction :: rest) earlier label) ↔
      instruction.label = some label ∨
        ∃ earlier, earlier < index ∧ CarriesAt rest earlier label := by
  constructor
  · rintro ⟨earlier, hLess, hCarries⟩
    cases earlier with
    | zero => exact .inl (carriesAt_zero_iff.mp hCarries)
    | succ earlier =>
      exact .inr ⟨earlier, Nat.lt_of_succ_lt_succ hLess, carriesAt_succ_iff.mp hCarries⟩
  · rintro (hLabel | ⟨earlier, hLess, hCarries⟩)
    · exact ⟨0, Nat.succ_pos index, carriesAt_zero_iff.mpr hLabel⟩
    · exact ⟨earlier + 1, Nat.succ_lt_succ hLess, carriesAt_succ_iff.mpr hCarries⟩

theorem clashes_succ_iff_of_none (hLabel : instruction.label = none) (index : Nat)
    (label : String) :
    Clashes symbols (instruction :: rest) (index + 1) label ↔ Clashes symbols rest index label := by
  rw [Clashes, Clashes, carriesAt_succ_iff, exists_carriesAt_lt_succ_iff, hLabel]
  simp

/-- Entering the first label moves it from the list to the table. -/
theorem clashes_succ_iff_of_some {name : String} (hLabel : instruction.label = some name)
    (symbol : Symbol) (index : Nat) (label : String) :
    Clashes symbols (instruction :: rest) (index + 1) label ↔
      Clashes (symbols.insert name symbol) rest index label := by
  rw [Clashes, Clashes, carriesAt_succ_iff, exists_carriesAt_lt_succ_iff, hLabel,
    Std.ExtTreeMap.mem_insert]
  simp only [Option.some.injEq, Std.LawfulEqCmp.compare_eq_iff_eq]
  grind

end Clashes

theorem not_clashes_of_defineLabels {instructions : List Instruction} {symbols table : SymbolTable}
    {index : Nat} (h : defineLabels symbols index instructions = .ok table) (offset : Nat)
    (label : String) : ¬ Clashes symbols instructions offset label := by
  induction instructions generalizing symbols index offset with
  | nil => rintro ⟨⟨_, hFound, _⟩, _⟩; cases hFound
  | cons instruction rest ih =>
    rw [defineLabels] at h
    split at h
    · rename_i hLabel
      cases offset with
      | zero => simp [clashes_zero_iff, hLabel]
      | succ offset =>
        rw [clashes_succ_iff_of_none hLabel]
        exact ih h offset
    · rename_i name hLabel
      split at h
      · cases h
      · rename_i hNew
        cases offset with
        | zero =>
          rw [clashes_zero_iff, hLabel]
          rintro ⟨hSame, hOld⟩
          cases hSame
          exact hNew hOld
        | succ offset =>
          rw [clashes_succ_iff_of_some hLabel]
          exact ih h offset

theorem firstAt_of_defineLabels_error {instructions : List Instruction} {symbols : SymbolTable}
    {index : Nat} {fault : Fault} (h : defineLabels symbols index instructions = .error fault) :
    ∃ offset label, FirstAt (Clashes symbols instructions) offset label ∧
      fault = .duplicateLabel label (index + offset) := by
  induction instructions generalizing symbols index with
  | nil => cases h
  | cons instruction rest ih =>
    rw [defineLabels] at h
    split at h
    · rename_i hLabel
      obtain ⟨offset, label, hFirst, rfl⟩ := ih h
      refine ⟨offset + 1, label, ?_, by rw [Nat.add_right_comm, Nat.add_assoc]⟩
      exact firstAt_succ (clashes_succ_iff_of_none hLabel) (by simp [clashes_zero_iff, hLabel])
        hFirst
    · rename_i name hLabel
      split at h
      · rename_i hOld
        cases h
        exact ⟨0, name, ⟨clashes_zero_iff.mpr ⟨hLabel, hOld⟩, nofun⟩, rfl⟩
      · rename_i hNew
        obtain ⟨offset, label, hFirst, rfl⟩ := ih h
        refine ⟨offset + 1, label, ?_, by rw [Nat.add_right_comm, Nat.add_assoc]⟩
        refine firstAt_succ (clashes_succ_iff_of_some hLabel _) ?_ hFirst
        intro other hClash
        obtain ⟨hSame, hOld⟩ := clashes_zero_iff.mp hClash
        cases hLabel.symm.trans hSame
        exact hNew hOld

/-- The instruction at `index` is a branch to the label, and the table has nowhere to jump to. -/
def Strands (symbols : SymbolTable) (instructions : List Instruction) (index : Nat)
    (label : String) : Prop :=
  ∃ instruction, instructions[index]? = some instruction ∧ instruction.opcode.isBranch = true ∧
    instruction.target = label ∧ symbols.jumpTarget? label = none

theorem firstAt_of_checkBranches_error {symbols : SymbolTable} {instructions : List Instruction}
    {index : Nat} {fault : Fault} (h : checkBranches symbols index instructions = .error fault) :
    ∃ offset label, FirstAt (Strands symbols instructions) offset label ∧
      fault = .undefinedBranch label (index + offset) := by
  induction instructions generalizing index with
  | nil => cases h
  | cons instruction rest ih =>
    rw [checkBranches] at h
    split at h
    · rename_i hUndefined
      cases h
      exact ⟨0, instruction.target, ⟨⟨instruction, rfl, hUndefined.1, rfl, hUndefined.2⟩, nofun⟩,
        rfl⟩
    · rename_i hDefined
      obtain ⟨offset, label, hFirst, rfl⟩ := ih h
      refine ⟨offset + 1, label, ?_, by rw [Nat.add_right_comm, Nat.add_assoc]⟩
      refine firstAt_succ (by simp [Strands]) ?_ hFirst
      rintro other ⟨found, hFound, hBranch, rfl, hNone⟩
      cases hFound
      exact hDefined ⟨hBranch, hNone⟩

/-- A program is refused for a label that an earlier instruction carries, or else for a branch that
finds no label. -/
inductive Refusal (instructions : List Instruction) : Fault → Prop
  | duplicate {index earlier : Nat} {instruction other : Instruction} {label : String}
      (hFound : instructions[index]? = some instruction) (hLabel : instruction.label = some label)
      (hEarlier : earlier < index) (hOther : instructions[earlier]? = some other)
      (hSame : other.label = some label) : Refusal instructions (.duplicateLabel label index)
  | undefined {index : Nat} {instruction : Instruction}
      (hFound : instructions[index]? = some instruction)
      (hBranch : instruction.opcode.isBranch = true) :
      Refusal instructions (.undefinedBranch instruction.target index)

theorem refusal_of_build_error {instructions : List Instruction} {fault : Fault}
    (h : build instructions = .error fault) : Refusal instructions fault := by
  unfold build at h
  cases hLabels : defineLabels ∅ 0 instructions with
  | error cause =>
    rw [hLabels] at h
    cases h
    obtain ⟨index, label, ⟨⟨⟨instruction, hFound, hLabel⟩, hEarlier⟩, _⟩, rfl⟩ :=
      firstAt_of_defineLabels_error hLabels
    rcases hEarlier with hEmpty | ⟨earlier, hLess, other, hOther, hSame⟩
    · exact absurd hEmpty Std.ExtTreeMap.not_mem_empty
    · rw [Nat.zero_add]
      exact .duplicate hFound hLabel hLess hOther hSame
  | ok symbols =>
    rw [hLabels] at h
    cases hBranches : checkBranches symbols 0 instructions with
    | ok _ =>
      simp only [bind, Except.bind, hBranches] at h
      cases h
    | error cause =>
      simp only [bind, Except.bind, hBranches] at h
      cases h
      obtain ⟨index, _, ⟨⟨instruction, hFound, hBranch, rfl, _⟩, _⟩, rfl⟩ :=
        firstAt_of_checkBranches_error hBranches
      rw [Nat.zero_add]
      exact .undefined hFound hBranch

/-! ## Built programs -/

variable {instructions : List Instruction} {program : Program}

theorem get?_of_build (h : build instructions = .ok program) (index : Nat) :
    program.get? index = instructions[index]? := by
  rw [← instructions_of_build h, get?, Array.getElem?_toList]

theorem lt_size_of_get? {index : Nat} {instruction : Instruction}
    (h : program.get? index = some instruction) : index < program.size := by
  obtain ⟨hIndex, _⟩ := Array.getElem?_eq_some_iff.mp h
  exact hIndex

theorem symbols_of_build (h : build instructions = .ok program) (label : String)
    (symbol : Symbol) :
    program.symbols[label]? = some symbol ↔
      ∃ instruction, program.get? symbol.index = some instruction ∧
        instruction.label = some label ∧ symbol.kind = instruction.symbolKind := by
  rw [get?_of_build h]
  obtain ⟨symbols, hLabels, _, rfl⟩ := build_ok h
  exact symbols_of_defineLabels hLabels label symbol

theorem index_eq_of_label_eq (h : build instructions = .ok program) {first second : Nat}
    {left right : Instruction} {label : String} (hLeft : program.get? first = some left)
    (hRight : program.get? second = some right) (hLeftLabel : left.label = some label)
    (hRightLabel : right.label = some label) : first = second := by
  have hFirst := (symbols_of_build h label ⟨first, left.symbolKind⟩).mpr
    ⟨left, hLeft, hLeftLabel, rfl⟩
  have hSecond := (symbols_of_build h label ⟨second, right.symbolKind⟩).mpr
    ⟨right, hRight, hRightLabel, rfl⟩
  rw [hFirst] at hSecond
  exact congrArg Symbol.index (Option.some.inj hSecond)

theorem jumpTarget?_of_build (h : build instructions = .ok program) (label : String)
    (target : Nat) :
    program.jumpTarget? label = some target ↔
      ∃ instruction, program.get? target = some instruction ∧
        instruction.label = some label ∧ instruction.opcode ≠ .declare := by
  rw [get?_of_build h]
  obtain ⟨symbols, hLabels, _, rfl⟩ := build_ok h
  exact jumpTarget?_of_defineLabels hLabels label target

theorem exists_jumpTarget?_of_branch (h : build instructions = .ok program) {index : Nat}
    {instruction : Instruction} (hFound : program.get? index = some instruction)
    (hBranch : instruction.opcode.isBranch = true) :
    ∃ target, program.jumpTarget? instruction.target = some target := by
  rw [get?_of_build h] at hFound
  obtain ⟨symbols, _, hBranches, rfl⟩ := build_ok h
  exact Option.ne_none_iff_exists'.mp
    (checkBranches_eq_ok_iff.mp hBranches instruction (List.mem_of_getElem? hFound) hBranch)

end Accumulator.Program
