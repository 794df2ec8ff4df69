import Accumulator.Proofs.Instruction.Grammar
import Accumulator.Proofs.Machine.ControlFlow
import Accumulator.Source

/-! # Locations of faults

The lines of a text, the lines that are kept of it and the instructions read from those are
numbered in three ways. The kept lines carry their numbers in increasing order, and the
instructions stand in the order of the kept lines, so a fault that knows an instruction is reported
at the line that the instruction was read from.
-/

namespace Accumulator

set_option autoImplicit false

/-- The line with a number in a text, counted from one. -/
def Text.LineAt (text : String) (number : Nat) (line : String) : Prop :=
  1 ≤ number ∧ (Text.lines text)[number - 1]? = some line

namespace SourceFile

variable {path text line : String} {number : Nat}

/-- Lines with their numbers, less the vacant ones. -/
def numbered (lines : List String) : List SourceLine :=
  (lines.zipIdx 1).filterMap fun (line, number) =>
    if Text.isVacant line then none else some ⟨number, line⟩

theorem mem_numbered_iff {lines : List String} :
    ⟨number, line⟩ ∈ numbered lines ↔
      (1 ≤ number ∧ lines[number - 1]? = some line) ∧ Text.isVacant line = false := by
  simp only [numbered, List.mem_filterMap, Prod.exists, List.mem_zipIdx_iff_le_and_getElem?_sub]
  constructor
  · rintro ⟨found, index, hAt, hKept⟩
    split at hKept
    · cases hKept
    · rename_i hVacant
      cases hKept
      exact ⟨hAt, by simpa using hVacant⟩
  · rintro ⟨hAt, hVacant⟩
    exact ⟨line, number, hAt, by simp [hVacant]⟩

theorem mem_lines_ofText_iff :
    ⟨number, line⟩ ∈ (ofText path text).lines ↔
      Text.LineAt text number line ∧ Text.isVacant line = false :=
  mem_numbered_iff

theorem lineAt_of_getElem? {index : Nat}
    (h : (ofText path text).lines[index]? = some ⟨number, line⟩) :
    Text.LineAt text number line ∧ Text.isVacant line = false :=
  mem_lines_ofText_iff.mp (List.mem_of_getElem? h)

theorem pairwise_number_lt (path text : String) :
    (ofText path text).lines.Pairwise fun left right => left.number < right.number := by
  have hNumbers : ((Text.lines text).zipIdx 1).Pairwise fun left right => left.2 < right.2 := by
    rw [← List.pairwise_map (f := Prod.snd), List.zipIdx_map_snd]
    exact List.pairwise_lt_range'
  apply List.Pairwise.filterMap _ _ hNumbers
  rintro ⟨_, first⟩ ⟨_, second⟩ hLess left hLeft right hRight
  dsimp only at hLeft hRight
  split at hLeft
  · cases hLeft
  · split at hRight
    · cases hRight
    · cases hLeft
      cases hRight
      exact hLess

theorem number_lt_of_getElem? {earlier index : Nat} {first second : SourceLine}
    (hFirst : (ofText path text).lines[earlier]? = some first)
    (hSecond : (ofText path text).lines[index]? = some second) (hLess : earlier < index) :
    first.number < second.number := by
  obtain ⟨hEarlier, rfl⟩ := List.getElem?_eq_some_iff.mp hFirst
  obtain ⟨hIndex, rfl⟩ := List.getElem?_eq_some_iff.mp hSecond
  exact List.pairwise_iff_getElem.mp (pairwise_number_lt path text) _ _ hEarlier hIndex hLess

/-! ## Reading the kept lines -/

theorem parseLine_eq_ok_iff {file : SourceFile} {source : SourceLine} {instruction : Instruction} :
    file.parseLine source = .ok instruction ↔ Instruction.parse source.text = .ok instruction := by
  unfold parseLine
  split <;> simp_all

theorem parseLine_eq_error_iff {file : SourceFile} {source : SourceLine} {report : Report} :
    file.parseLine source = .error report ↔ ∃ fault,
      Instruction.parse source.text = .error fault ∧
        report = ⟨.program fault, some ⟨file.path, source.number⟩⟩ := by
  unfold parseLine
  constructor
  · intro h
    split at h
    · cases h
    · rename_i fault hParse
      cases h
      exact ⟨fault, hParse, rfl⟩
  · rintro ⟨fault, hParse, rfl⟩
    rw [hParse]

theorem build_eq_ok {file : SourceFile} {program : Program} (h : file.build = .ok program) :
    ∃ instructions, file.lines.map file.parseLine = instructions.map .ok ∧
      Program.build instructions = .ok program := by
  obtain ⟨instructions, hRead, hBuild⟩ := exists_of_bind_eq_ok h
  refine ⟨instructions, mapM_eq_ok_iff.mp hRead, ?_⟩
  split at hBuild
  · rename_i built hBuilt
    cases hBuild
    exact hBuilt
  · cases hBuild

/-- A file is refused for its first line that cannot be read, or else for what its instructions
are refused for. -/
theorem build_eq_error {file : SourceFile} {report : Report} (h : file.build = .error report) :
    (∃ front source back, ∃ instructions : List Instruction,
      file.lines = front ++ source :: back ∧
      front.map file.parseLine = instructions.map .ok ∧ file.parseLine source = .error report) ∨
    ∃ instructions fault, file.lines.map file.parseLine = instructions.map .ok ∧
      Program.build instructions = .error fault ∧ report = file.locate fault := by
  rcases eq_error_or_of_bind_eq_error h with hRead | ⟨instructions, hRead, hBuild⟩
  · exact .inl (mapM_eq_error_iff.mp hRead)
  · refine .inr ⟨instructions, ?_⟩
    split at hBuild
    · cases hBuild
    · rename_i fault hRefused
      cases hBuild
      exact ⟨fault, mapM_eq_ok_iff.mp hRead, hRefused, rfl⟩

/-- An instruction was read from the kept line with its index. -/
theorem exists_line_of_instruction {file : SourceFile} {instructions : List Instruction}
    (hRead : file.lines.map file.parseLine = instructions.map .ok) {index : Nat}
    {instruction : Instruction} (hFound : instructions[index]? = some instruction) :
    ∃ number, file.lines[index]? = some ⟨number, instruction.source⟩ ∧
      Instruction.parse instruction.source = .ok instruction := by
  obtain ⟨⟨number, line⟩, hLine, hParse⟩ := getElem?_of_map_eq_map_ok hRead hFound
  have hInstruction := parseLine_eq_ok_iff.mp hParse
  obtain ⟨rfl, _⟩ := Instruction.source_eq_of_parse hInstruction
  exact ⟨number, hLine, hInstruction⟩

/-! ## Faults of building -/

/-- What the fault of a refused text says of the line that it is reported at. -/
def Blames (text : String) (number : Nat) : Fault → Prop
  | .duplicateLabel label _ => ∃ line instruction, Text.LineAt text number line ∧
      Instruction.parse line = .ok instruction ∧ instruction.label = some label ∧
      ∃ earlier other first, earlier < number ∧ Text.LineAt text earlier other ∧
        Instruction.parse other = .ok first ∧ first.label = some label
  | .undefinedBranch label _ => ∃ line instruction, Text.LineAt text number line ∧
      Instruction.parse line = .ok instruction ∧ instruction.opcode.isBranch = true ∧
      instruction.operand = some label
  | fault => ∃ line, Text.LineAt text number line ∧ Text.isVacant line = false ∧
      Instruction.parse line = .error fault ∧
      ∀ earlier other, earlier < number → Text.LineAt text earlier other →
        Text.isVacant other = false → ∃ instruction, Instruction.parse other = .ok instruction

theorem blames_of_parse_error {fault : Fault} (hLine : Text.LineAt text number line)
    (hVacant : Text.isVacant line = false) (hParse : Instruction.parse line = .error fault)
    (hFirst : ∀ earlier other, earlier < number → Text.LineAt text earlier other →
      Text.isVacant other = false → ∃ instruction, Instruction.parse other = .ok instruction) :
    Blames text number fault := by
  rcases Instruction.eq_of_parse_error hParse with rfl | ⟨word, rfl, _⟩
  all_goals exact ⟨line, hLine, hVacant, hParse, hFirst⟩

/-- Lines with a smaller number than a kept line come before it in the file. -/
theorem parse_of_number_lt {front back : List SourceLine} {source : SourceLine}
    {instructions : List Instruction} (hSplit : (ofText path text).lines = front ++ source :: back)
    (hRead : front.map (ofText path text).parseLine = instructions.map .ok)
    (hLess : number < source.number) (hLine : Text.LineAt text number line)
    (hVacant : Text.isVacant line = false) :
    ∃ instruction, Instruction.parse line = .ok instruction := by
  have hMem : ⟨number, line⟩ ∈ (ofText path text).lines :=
    mem_lines_ofText_iff.mpr ⟨hLine, hVacant⟩
  have hSorted := pairwise_number_lt path text
  rw [hSplit] at hMem hSorted
  rcases List.mem_append.mp hMem with hFront | hBack
  · obtain ⟨result, hResult, hSame⟩ := List.mem_map.mp (hRead ▸ List.mem_map_of_mem hFront)
    exact ⟨result, parseLine_eq_ok_iff.mp hSame.symm⟩
  · obtain ⟨_, hTail, _⟩ := List.pairwise_append.mp hSorted
    rcases List.mem_cons.mp hBack with rfl | hBehind
    · exact absurd hLess (Nat.lt_irrefl _)
    · have hGreater := List.rel_of_pairwise_cons hTail hBehind
      exact absurd hLess (Nat.lt_asymm hGreater)

theorem blames_of_refusal {instructions : List Instruction} {fault : Fault}
    (hRead : (ofText path text).lines.map (ofText path text).parseLine = instructions.map .ok)
    (hRefusal : Program.Refusal instructions fault) :
    ∃ number, (ofText path text).locate fault = ⟨.program fault, some ⟨path, number⟩⟩ ∧
      Blames text number fault := by
  have hLocate : ∀ {index number : Nat} {source : String},
      (ofText path text).lines[index]? = some ⟨number, source⟩ →
      (ofText path text).location? index = some ⟨path, number⟩ := by
    intro index number source hLine
    rw [location?, hLine]
    rfl
  cases hRefusal with
  | @duplicate index earlier instruction other label hFound hLabel hEarlier hOther hSame =>
    obtain ⟨number, hLine, hParse⟩ := exists_line_of_instruction hRead hFound
    obtain ⟨before, hBefore, hFirst⟩ := exists_line_of_instruction hRead hOther
    obtain ⟨hAt, _⟩ := lineAt_of_getElem? hLine
    obtain ⟨hOtherAt, _⟩ := lineAt_of_getElem? hBefore
    have hLess := number_lt_of_getElem? hBefore hLine hEarlier
    refine ⟨number, ?_, _, instruction, hAt, hParse, hLabel, before, _, other, hLess, hOtherAt,
      hFirst, hSame⟩
    rw [locate, Fault.index?, Option.bind_some, hLocate hLine]
  | @undefined index instruction hFound hBranch =>
    obtain ⟨number, hLine, hParse⟩ := exists_line_of_instruction hRead hFound
    obtain ⟨hAt, _⟩ := lineAt_of_getElem? hLine
    obtain ⟨_, hShape⟩ := Instruction.source_eq_of_parse hParse
    have hOperand := hShape.operand_eq (Opcode.ne_halt_of_isBranch hBranch)
    refine ⟨number, ?_, _, instruction, hAt, hParse, hBranch, hOperand⟩
    rw [locate, Fault.index?, Option.bind_some, hLocate hLine]

theorem blames_of_build_error {report : Report}
    (h : (ofText path text).build = .error report) :
    ∃ fault number, report = ⟨.program fault, some ⟨path, number⟩⟩ ∧ Blames text number fault := by
  rcases build_eq_error h with
    ⟨front, ⟨number, line⟩, back, instructions, hSplit, hFront, hParse⟩ |
    ⟨instructions, fault, hRead, hRefused, rfl⟩
  · obtain ⟨fault, hFault, rfl⟩ := parseLine_eq_error_iff.mp hParse
    have hMem : ⟨number, line⟩ ∈ (ofText path text).lines := by simp [hSplit]
    obtain ⟨hAt, hVacant⟩ := mem_lines_ofText_iff.mp hMem
    refine ⟨fault, number, rfl, blames_of_parse_error hAt hVacant hFault ?_⟩
    intro earlier other hLess hOther hKept
    exact parse_of_number_lt hSplit hFront hLess hOther hKept
  · obtain ⟨number, hLocated, hBlames⟩ :=
      blames_of_refusal hRead (Program.refusal_of_build_error hRefused)
    exact ⟨fault, number, hLocated, hBlames⟩

/-! ## Faults of a run -/

/-- The fault is reported at the line of the instruction at the counter, whose text it quotes. -/
structure Quotes (path text : String) (program : Program) (counter : Nat) (fault : Fault)
    (location : Location) : Prop where
  path_eq : location.path = path
  quoted : ∃ site instruction, fault.site? = some site ∧
    Text.LineAt text location.line site.text ∧
    program.get? counter = some instruction ∧ Instruction.parse site.text = .ok instruction ∧
    (ofText path text).lines[counter]? = some ⟨location.line, site.text⟩

theorem quotes_of_arisesAt {program : Program} (hBuild : (ofText path text).build = .ok program)
    {counter : Nat} {fault : Fault} (h : Execution.ArisesAt program counter fault) :
    (((ofText path text).locate fault).location.isSome = true ↔ fault.faultClass = .runtime) ∧
      ∀ location, ((ofText path text).locate fault).location = some location →
        Quotes path text program counter fault location := by
  obtain ⟨instructions, hRead, hProgram⟩ := build_eq_ok hBuild
  cases h with
  | device message => exact ⟨by simp [locate, Fault.index?, Fault.site?, Fault.faultClass], nofun⟩
  | @instruction instruction _ hFound hSite =>
    have hInstruction := hFound
    rw [Program.get?_of_build hProgram] at hInstruction
    obtain ⟨number, hLine, hParse⟩ := exists_line_of_instruction hRead hInstruction
    have hLocation : ((ofText path text).locate fault).location = some ⟨path, number⟩ := by
      rw [locate, Fault.index?_of_site? hSite, Option.bind_some, location?]
      simp only [Instruction.site, hLine]
      rfl
    have hRuntime : fault.faultClass = .runtime :=
      Fault.faultClass_eq_runtime_iff.mpr ⟨_, hSite⟩
    rw [hLocation]
    refine ⟨iff_of_true rfl hRuntime, ?_⟩
    intro location hSame
    cases hSame
    obtain ⟨hAt, _⟩ := lineAt_of_getElem? hLine
    exact ⟨rfl, _, instruction, hSite, hAt, hFound, hParse, hLine⟩

/-- A text that is refused is refused at the line that is at fault, and a run of its program that
fails is reported at the line of the instruction that failed, exactly if it is the instruction
that failed and not a device. -/
theorem faults_located (path text : String) :
    (∀ report, (ofText path text).build = .error report →
      ∃ fault number, report = ⟨.program fault, some ⟨path, number⟩⟩ ∧
        Blames text number fault) ∧
    ∀ program, (ofText path text).build = .ok program →
      ∀ {ι ω : Type} [InputDevice ι] [OutputDevice ω] (config : Config) (session : Session ι ω)
        (fuel : Nat) (fault : Fault) (after : Session ι ω),
        Execution.run fuel config program session = some (.error (.fault fault) after) →
        (((ofText path text).locate fault).location.isSome = true ↔
          fault.faultClass = .runtime) ∧
        ∀ location, ((ofText path text).locate fault).location = some location →
          Quotes path text program after.state.counter fault location := by
  refine ⟨fun report => blames_of_build_error, ?_⟩
  intro program hBuild ι ω _ _ config session fuel fault after hRun
  obtain ⟨instructions, _, hProgram⟩ := build_eq_ok hBuild
  exact quotes_of_arisesAt hBuild (Execution.arisesAt_of_run hProgram hRun)

/-- A label twice, with vacant lines before each. -/
def doubledLabel : String := "\nA END\n \t\nA END\n"

/-- A division by zero behind vacant lines. -/
def lateDivision : String := "\n\nLOAD =1\n \t\r\nDIV =0\n"

theorem faults_located_lateDivision :
    (∃ report, (ofText "p.aal" doubledLabel).build = .error report ∧
      report = ⟨.program (.duplicateLabel "A" 1), some ⟨"p.aal", 4⟩⟩ ∧
      Blames doubledLabel 4 (.duplicateLabel "A" 1)) ∧
    ∃ program fault after, (ofText "p.aal" lateDivision).build = .ok program ∧
      Execution.run 2 ⟨false, none⟩ program Execution.idleSession =
        some (.error (.fault fault) after) ∧
      ((ofText "p.aal" lateDivision).locate fault).location = some ⟨"p.aal", 5⟩ ∧
      Quotes "p.aal" lateDivision program 1 fault ⟨"p.aal", 5⟩ := by
  constructor
  · obtain ⟨hRefused, _⟩ := faults_located "p.aal" doubledLabel
    obtain ⟨_, number, hReport, hBlames⟩ := hRefused _ rfl
    cases hReport
    exact ⟨_, rfl, rfl, hBlames⟩
  · obtain ⟨_, hRuns⟩ := faults_located "p.aal" lateDivision
    obtain ⟨_, hQuotes⟩ := hRuns _ rfl ⟨false, none⟩ Execution.idleSession 2 _ _ rfl
    exact ⟨_, _, _, rfl, rfl, rfl, hQuotes _ rfl⟩

end SourceFile

end Accumulator
