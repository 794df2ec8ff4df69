import Accumulator.Proofs.Program.Labels

/-! # What can be built

A list of instructions is a program if no label repeats in it and every branch names the label of
an instruction that is no declaration. Of any other list the first repeated label is reported, and
the first branch without a target only where no label repeats.
-/

namespace Accumulator.Program

set_option autoImplicit false

variable {instructions : List Instruction} {program : Program} {index : Nat} {label : String}

def DistinctLabels (instructions : List Instruction) : Prop :=
  ∀ first second label, CarriesAt instructions first label → CarriesAt instructions second label →
    first = second

/-- A branch may jump there: the label is that of an instruction which is no declaration. -/
def IsTarget (instructions : List Instruction) (label : String) : Prop :=
  ∃ (index : Nat) (instruction : Instruction), instructions[index]? = some instruction ∧
    instruction.label = some label ∧ instruction.opcode ≠ .declare

def BranchesLand (instructions : List Instruction) : Prop :=
  ∀ instruction ∈ instructions, instruction.opcode.isBranch = true →
    IsTarget instructions instruction.target

def RepeatsAt (instructions : List Instruction) (index : Nat) (label : String) : Prop :=
  CarriesAt instructions index label ∧ ∃ earlier, earlier < index ∧
    CarriesAt instructions earlier label

def StrandsAt (instructions : List Instruction) (index : Nat) (label : String) : Prop :=
  ∃ instruction, instructions[index]? = some instruction ∧ instruction.opcode.isBranch = true ∧
    instruction.target = label ∧ ¬ IsTarget instructions label

/-! ## Repeated labels -/

theorem clashes_empty_iff :
    Clashes ∅ instructions index label ↔ RepeatsAt instructions index label := by
  simp [Clashes, RepeatsAt]

theorem distinctLabels_iff :
    DistinctLabels instructions ↔ ∀ index label, ¬ RepeatsAt instructions index label := by
  constructor
  · rintro hDistinct index label ⟨hCarries, earlier, hLess, hEarlier⟩
    exact absurd (hDistinct earlier index label hEarlier hCarries) (Nat.ne_of_lt hLess)
  · intro hNever first second label hFirst hSecond
    rcases Nat.lt_trichotomy first second with hLess | hSame | hLess
    · exact absurd ⟨hSecond, first, hLess, hFirst⟩ (hNever second label)
    · exact hSame
    · exact absurd ⟨hFirst, second, hLess, hSecond⟩ (hNever first label)

theorem distinctLabels_of_defineLabels {symbols : SymbolTable}
    (h : defineLabels ∅ 0 instructions = .ok symbols) : DistinctLabels instructions := by
  rw [distinctLabels_iff]
  intro index label
  rw [← clashes_empty_iff]
  exact not_clashes_of_defineLabels h index label

/-! ## Branches without a target -/

theorem jumpTarget?_eq_none_iff {symbols : SymbolTable}
    (h : defineLabels ∅ 0 instructions = .ok symbols) (label : String) :
    symbols.jumpTarget? label = none ↔ ¬ IsTarget instructions label := by
  rw [Option.eq_none_iff_forall_ne_some, IsTarget, not_exists]
  simp only [ne_eq, jumpTarget?_of_defineLabels h]

theorem strands_iff {symbols : SymbolTable} (h : defineLabels ∅ 0 instructions = .ok symbols) :
    Strands symbols instructions index label ↔ StrandsAt instructions index label := by
  simp only [Strands, StrandsAt, jumpTarget?_eq_none_iff h]

theorem checkBranches_eq_ok_iff_of_defineLabels {symbols : SymbolTable}
    (h : defineLabels ∅ 0 instructions = .ok symbols) :
    checkBranches symbols 0 instructions = .ok () ↔ BranchesLand instructions := by
  rw [checkBranches_eq_ok_iff]
  simp only [ne_eq, jumpTarget?_eq_none_iff h, Classical.not_not, BranchesLand]

theorem not_branchesLand_of_strandsAt (h : StrandsAt instructions index label) :
    ¬ BranchesLand instructions := by
  obtain ⟨instruction, hFound, hBranch, rfl, hNone⟩ := h
  intro hLand
  exact hNone (hLand instruction (List.mem_of_getElem? hFound) hBranch)

/-! ## The built program -/

theorem foldl_max_size {size : Instruction → Nat} {instructions : List Instruction}
    {start widest : Nat}
    (h : instructions.foldl (fun longest instruction => max longest (size instruction)) start =
      widest) :
    start ≤ widest ∧ (∀ instruction ∈ instructions, size instruction ≤ widest) ∧
      (widest = start ∨ ∃ instruction ∈ instructions, widest = size instruction) := by
  induction instructions generalizing start with
  | nil =>
    cases h
    exact ⟨Nat.le_refl start, nofun, .inl rfl⟩
  | cons instruction rest ih =>
    simp only [List.foldl_cons] at h
    obtain ⟨hStart, hRest, hReached⟩ := ih h
    refine ⟨by omega, ?_, ?_⟩
    · rw [List.forall_mem_cons]
      exact ⟨by omega, hRest⟩
    · rcases hReached with hSame | ⟨other, hMem, hSize⟩
      · rcases Nat.le_total start (size instruction) with hLe | hLe
        · exact .inr ⟨instruction, List.mem_cons_self, by omega⟩
        · exact .inl (by omega)
      · exact .inr ⟨other, List.mem_cons_of_mem _ hMem, hSize⟩

/-- No label is longer than this many bytes, and one is as long unless the number is zero. -/
def IsWidestLabel (instructions : List Instruction) (widest : Nat) : Prop :=
  (∀ index label, CarriesAt instructions index label → label.utf8ByteSize ≤ widest) ∧
    (widest = 0 ∨ ∃ index label, CarriesAt instructions index label ∧ widest = label.utf8ByteSize)

theorem isWidestLabel_longestLabel (instructions : List Instruction) :
    IsWidestLabel instructions (longestLabel instructions) := by
  obtain ⟨_, hLongest, hReached⟩ :=
    foldl_max_size (rfl : longestLabel instructions = longestLabel instructions)
  constructor
  · rintro index label ⟨instruction, hFound, hLabel⟩
    have hSize := hLongest instruction (List.mem_of_getElem? hFound)
    rw [Instruction.name, hLabel] at hSize
    exact hSize
  · rcases hReached with hZero | ⟨instruction, hMem, hSize⟩
    · exact .inl hZero
    · cases hLabel : instruction.label with
      | none =>
        rw [Instruction.name, hLabel] at hSize
        exact .inl hSize
      | some label =>
        rw [Instruction.name, hLabel] at hSize
        obtain ⟨index, hFound⟩ := List.mem_iff_getElem?.mp hMem
        exact .inr ⟨index, label, ⟨instruction, hFound, hLabel⟩, hSize⟩

/-- The program is the list with its labels in a table. -/
structure Tabulates (program : Program) (instructions : List Instruction) : Prop where
  unchanged : program.instructions.toList = instructions
  symbol : ∀ (label : String) (symbol : Symbol), program.symbols[label]? = some symbol ↔
    ∃ instruction : Instruction, instructions[symbol.index]? = some instruction ∧
      instruction.label = some label ∧ (symbol.kind = .data ↔ instruction.opcode = .declare)
  jump : ∀ label target, program.jumpTarget? label = some target ↔
    ∃ instruction, instructions[target]? = some instruction ∧
      instruction.label = some label ∧ instruction.opcode ≠ .declare
  width : ∃ widest, IsWidestLabel instructions widest ∧ program.labelWidth = 3 + widest

theorem kind_eq_symbolKind_iff {kind : SymbolKind} {instruction : Instruction} :
    kind = instruction.symbolKind ↔ (kind = .data ↔ instruction.opcode = .declare) := by
  unfold Instruction.symbolKind
  cases kind <;> split <;> simp_all

theorem tabulates_of_build (h : build instructions = .ok program) :
    program.Tabulates instructions where
  unchanged := instructions_of_build h
  symbol label symbol := by
    rw [symbols_of_build h, get?_of_build h]
    simp only [kind_eq_symbolKind_iff]
  jump label target := by rw [jumpTarget?_of_build h, get?_of_build h]
  width := by
    obtain ⟨symbols, _, _, rfl⟩ := build_ok h
    exact ⟨longestLabel instructions, isWidestLabel_longestLabel instructions, Nat.add_comm _ _⟩

theorem build_cases (instructions : List Instruction) :
    (∃ program, build instructions = .ok program ∧ DistinctLabels instructions ∧
      BranchesLand instructions) ∨
    (∃ index label, FirstAt (RepeatsAt instructions) index label ∧
      build instructions = .error (.duplicateLabel label index)) ∨
    DistinctLabels instructions ∧ ∃ index label, FirstAt (StrandsAt instructions) index label ∧
      build instructions = .error (.undefinedBranch label index) := by
  unfold build
  cases hLabels : defineLabels ∅ 0 instructions with
  | error fault =>
    obtain ⟨index, label, ⟨hClash, hNone⟩, rfl⟩ := firstAt_of_defineLabels_error hLabels
    simp only [clashes_empty_iff] at hClash hNone
    rw [Nat.zero_add]
    exact .inr (.inl ⟨index, label, ⟨hClash, hNone⟩, rfl⟩)
  | ok symbols =>
    have hDistinct := distinctLabels_of_defineLabels hLabels
    cases hBranches : checkBranches symbols 0 instructions with
    | ok _ =>
      have hLand := (checkBranches_eq_ok_iff_of_defineLabels hLabels).mp hBranches
      exact .inl ⟨_, by simp only [bind, Except.bind, hBranches]; rfl, hDistinct, hLand⟩
    | error fault =>
      obtain ⟨index, label, ⟨hStrands, hNone⟩, rfl⟩ := firstAt_of_checkBranches_error hBranches
      simp only [strands_iff hLabels] at hStrands hNone
      rw [Nat.zero_add] at hBranches
      refine .inr (.inr ⟨hDistinct, index, label, ⟨hStrands, hNone⟩, ?_⟩)
      simp only [bind, Except.bind, hBranches]

/-- Exactly the lists with distinct labels and with a target for every branch are built, into the
list with its table. Of the others, those with a repeated label are refused for the first that
repeats, and the rest for the first branch without a target. -/
theorem build_exact (instructions : List Instruction) :
    ((∃ program, build instructions = .ok program) ↔
      DistinctLabels instructions ∧ BranchesLand instructions) ∧
    (∀ program, build instructions = .ok program → program.Tabulates instructions) ∧
    (¬ DistinctLabels instructions → ∃ index label, FirstAt (RepeatsAt instructions) index label ∧
      build instructions = .error (.duplicateLabel label index)) ∧
    (DistinctLabels instructions → ¬ BranchesLand instructions →
      ∃ index label, FirstAt (StrandsAt instructions) index label ∧
        build instructions = .error (.undefinedBranch label index)) := by
  have hTable : ∀ program, build instructions = .ok program → program.Tabulates instructions :=
    fun _ => tabulates_of_build
  rcases build_cases instructions with
    ⟨program, hBuild, hDistinct, hLand⟩ | ⟨index, label, hFirst, hBuild⟩ |
    ⟨hDistinct, index, label, hFirst, hBuild⟩
  · exact ⟨iff_of_true ⟨program, hBuild⟩ ⟨hDistinct, hLand⟩, hTable, absurd hDistinct,
      fun _ => absurd hLand⟩
  · have hRepeats : ¬ DistinctLabels instructions :=
      fun hDistinct => distinctLabels_iff.mp hDistinct index label hFirst.1
    refine ⟨iff_of_false ?_ fun h => hRepeats h.1, hTable, fun _ => ⟨index, label, hFirst, hBuild⟩,
      fun hDistinct => absurd hDistinct hRepeats⟩
    rintro ⟨program, hOk⟩
    rw [hBuild] at hOk
    cases hOk
  · have hStranded := not_branchesLand_of_strandsAt hFirst.1
    refine ⟨iff_of_false ?_ fun h => hStranded h.2, hTable, absurd hDistinct,
      fun _ _ => ⟨index, label, hFirst, hBuild⟩⟩
    rintro ⟨program, hOk⟩
    rw [hBuild] at hOk
    cases hOk

/-- A branch to nowhere, and behind it a label that repeats. -/
def repeatBehindBranch : List Instruction :=
  [⟨"BU B", none, .branchAlways, some "B"⟩, ⟨"A LOAD =1", some "A", .load, some "=1"⟩,
    ⟨"A END", some "A", .halt, none⟩]

theorem build_exact_repeatBehindBranch :
    ¬ DistinctLabels repeatBehindBranch ∧ ¬ BranchesLand repeatBehindBranch ∧
      ∃ index label, FirstAt (RepeatsAt repeatBehindBranch) index label ∧
        build repeatBehindBranch = .error (.duplicateLabel label index) := by
  obtain ⟨_, _, hRefused, _⟩ := build_exact repeatBehindBranch
  have hRepeats : ¬ DistinctLabels repeatBehindBranch := by
    intro hDistinct
    have hSame : 1 = 2 := hDistinct 1 2 "A" ⟨_, rfl, rfl⟩ ⟨_, rfl, rfl⟩
    cases hSame
  have hStrands : ¬ BranchesLand repeatBehindBranch := by
    intro hLand
    obtain ⟨index, instruction, hFound, hLabel, _⟩ := hLand _ List.mem_cons_self rfl
    have hOther : ∀ found ∈ repeatBehindBranch, found.label ≠ some "B" := by decide
    exact hOther instruction (List.mem_of_getElem? hFound) hLabel
  exact ⟨hRepeats, hStrands, hRefused hRepeats⟩

end Accumulator.Program
