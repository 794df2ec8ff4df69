import Accumulator.CommandLine.Execute
import Accumulator.Proofs.Machine.Mirroring
import Accumulator.Proofs.Source.Locations
import Accumulator.Proofs.Text.Replacement

/-! # The command and the machine

Running a file with the command is reading the lines of its text that have fields, building the
program and running it on the words of the standard input. The command adds to that only its exit
code and, in front of the message of a fault, the place of the fault; and where the machine crashes
the host adds its notice.
-/

namespace Accumulator

set_option autoImplicit false

/-- The lines of a text that have a field. -/
def Text.fieldLines (text : String) : List String :=
  (Text.lines text).filter fun line => !(Text.fields line).isEmpty

namespace SourceFile

theorem texts_ofText (path text : String) :
    (ofText path text).lines.map SourceLine.text = Text.fieldLines text := by
  have hVacant : ∀ line, Text.isVacant line = (Text.fields line).isEmpty := by
    intro line
    rw [Bool.eq_iff_iff, Text.isVacant_eq_true_iff, List.isEmpty_iff]
  have hEach : ∀ entry : String × Nat,
      (if Text.isVacant entry.1 then none else some (⟨entry.2, entry.1⟩ : SourceLine)).map
        SourceLine.text = Option.guard (fun line => !(Text.fields line).isEmpty) entry.1 := by
    rintro ⟨line, number⟩
    simp only [hVacant, Option.guard]
    by_cases hEmpty : (Text.fields line).isEmpty = true <;> simp [hEmpty]
  calc
    _ = ((Text.lines text).zipIdx 1).filterMap fun entry =>
          Option.guard (fun line => !(Text.fields line).isEmpty) entry.1 := by
        rw [ofText, List.map_filterMap]
        exact List.filterMap_congr fun entry _ => hEach entry
    _ = (((Text.lines text).zipIdx 1).map Prod.fst).filterMap
          (Option.guard fun line => !(Text.fields line).isEmpty) := by
        rw [List.filterMap_map]
        rfl
    _ = Text.fieldLines text := by
        rw [List.zipIdx_map_fst, List.filterMap_eq_filter, Text.fieldLines]

theorem map_parseLine_eq_iff {file : SourceFile} {sources : List SourceLine}
    {instructions : List Instruction} :
    sources.map file.parseLine = instructions.map .ok ↔
      (sources.map SourceLine.text).map Instruction.parse = instructions.map .ok := by
  induction sources generalizing instructions with
  | nil => simp
  | cons source sources ih =>
    cases instructions with
    | nil => simp
    | cons instruction instructions =>
      simp only [List.map_cons, List.cons.injEq, ih, parseLine_eq_ok_iff]

/-- A file builds the program of the texts of its lines. -/
theorem build_of_ofLines_ok {file : SourceFile} {program : Program}
    (h : Program.ofLines (file.lines.map SourceLine.text) = .ok program) :
    file.build = .ok program := by
  obtain ⟨instructions, hRead, hBuild⟩ := exists_of_bind_eq_ok h
  have hLines : file.lines.mapM file.parseLine = .ok instructions :=
    mapM_eq_ok_iff.mpr (map_parseLine_eq_iff.mpr (mapM_eq_ok_iff.mp hRead))
  simp only [build, hLines, bind, Except.bind, hBuild]

theorem build_of_ofLines_error {file : SourceFile} {fault : Fault}
    (h : Program.ofLines (file.lines.map SourceLine.text) = .error fault) :
    ∃ location, file.build = .error ⟨.program fault, location⟩ := by
  rcases eq_error_or_of_bind_eq_error h with hRead | ⟨instructions, hRead, hBuild⟩
  · obtain ⟨front, line, back, instructions, hSplit, hFront, hFault⟩ := mapM_eq_error_iff.mp hRead
    obtain ⟨before, behind, hSources, rfl, hBehind⟩ := List.map_eq_append_iff.mp hSplit
    obtain ⟨source, after, rfl, rfl, rfl⟩ := List.map_eq_cons_iff.mp hBehind
    have hParse : file.parseLine source =
        .error ⟨.program fault, some ⟨file.path, source.number⟩⟩ :=
      parseLine_eq_error_iff.mpr ⟨fault, hFault, rfl⟩
    have hLines := mapM_eq_error_iff.mpr
      ⟨before, source, after, instructions, hSources, map_parseLine_eq_iff.mpr hFront, hParse⟩
    rw [build, hLines]
    exact ⟨_, rfl⟩
  · have hLines : file.lines.mapM file.parseLine = .ok instructions :=
      mapM_eq_ok_iff.mpr (map_parseLine_eq_iff.mpr (mapM_eq_ok_iff.mp hRead))
    refine ⟨fault.index?.bind file.location?, ?_⟩
    simp only [build, hLines, bind, Except.bind, hBuild]
    rfl

end SourceFile

namespace CommandLine

/-- The message of a fault, behind the place of the fault if it has one. -/
def complaint (path : String) (place : Option Nat) (fault : Fault) : String :=
  (match place with
    | some number => path ++ ":" ++ Decimal.ofNat number ++ ": "
    | none => "") ++ "error: " ++ fault.message ++ "\n"

theorem ofReport_eq_complaint {path : String} {fault : Fault} {report : Report}
    (hCause : report.cause = .program fault)
    (hPath : ∀ place, report.location = some place → place.path = path) (stdout : ByteArray) :
    Reply.ofReport stdout report =
      ⟨1, stdout, complaint path (report.location.map Location.line) fault⟩ := by
  obtain ⟨cause, location⟩ := report
  dsimp only at hCause hPath ⊢
  subst hCause
  cases location with
  | none => simp [Reply.ofReport, Report.diagnostic, Cause.message, complaint]
  | some place =>
    have hSame := hPath place rfl
    subst hSame
    simp [Reply.ofReport, Report.diagnostic, Cause.message, complaint, Location.describe,
      String.append_assoc]

theorem loadProgram_toByteArray (path text : String) :
    loadProgram path.toByteArray (.ok text.toByteArray) =
      (SourceFile.ofText path text).build.map fun program =>
        (SourceFile.ofText path text, program) := by
  simp only [loadProgram, SourceFile.load, Except.bind, Text.fromUTF8?_toByteArray,
    Text.lossy_toByteArray]
  rfl

section Replies

variable {notice : Crash → String} {path text : String} {config : Config}
  {options : List ByteArray} {readFile : ByteArray → Except FileFault ByteArray}
  {program : Program}

theorem execute_run (hOptions : parseRun {} options = .ok (.run path.toByteArray config))
    (hFile : readFile path.toByteArray = .ok text.toByteArray) (fuel : Nat) (stdin : List Chunk) :
    execute notice fuel readFile ("run".toByteArray :: options) stdin =
      match (SourceFile.ofText path text).build with
      | .error report => some (.ofReport ByteArray.empty report)
      | .ok program =>
        (Execution.run fuel config program (openSession stdin)).map
          (Reply.ofRun notice (SourceFile.ofText path text)) := by
  have hParse : parse ("run".toByteArray :: options) = .ok (.run path.toByteArray config) := by
    rw [parse, Text.lossy_toByteArray]
    exact hOptions
  rw [execute, hParse]
  simp only [runFile, hFile, loadProgram_toByteArray]
  cases (SourceFile.ofText path text).build <;> rfl

/-- The reply to a run of the machine. A fault is placed exactly if it is one of an instruction. Of
a crash the host gives notice. -/
inductive Answers (notice : Crash → String) (path text : String) (program : Program) :
    Execution.RunResult Script Sink → Reply → Prop
  | success (outcome : RunOutcome) (after : Session Script Sink) :
      Answers notice path text program (.ok outcome after) ⟨0, after.output.written, ""⟩
  | failure (fault : Fault) (after : Session Script Sink) (place : Option Nat)
      (hPlaced : place.isSome = true ↔ fault.faultClass = .runtime)
      (hQuotes : ∀ number, place = some number →
        SourceFile.Quotes path text program after.state.counter fault ⟨path, number⟩) :
      Answers notice path text program (.error (.fault fault) after)
        ⟨1, after.output.written, complaint path place fault⟩
  | crash (crash : Crash) (after : Session Script Sink) :
      Answers notice path text program (.error (.crash crash) after)
        ⟨101, after.output.written, notice crash⟩

theorem answers_ofRun {fuel : Nat} {start : Session LineReader Sink}
    {left : Execution.RunResult LineReader Sink} {right : Execution.RunResult Script Sink}
    {I : LineReader → Script → Prop} (hBuild : (SourceFile.ofText path text).build = .ok program)
    (hRun : Execution.run fuel config program start = some left)
    (hAlike : Execution.Alike (Execution.Mirrors I) left right) :
    Answers notice path text program right
      (Reply.ofRun notice (SourceFile.ofText path text) left) := by
  cases hAlike with
  | @ok outcome reached after hEnd =>
    rw [Reply.ofRun, hEnd.output]
    exact .success outcome after
  | @error failure reached after hEnd =>
    cases failure with
    | crash crash =>
      rw [Reply.ofRun, hEnd.output]
      exact .crash crash after
    | fault fault =>
      obtain ⟨instructions, _, hProgram⟩ := SourceFile.build_eq_ok hBuild
      obtain ⟨hPlaced, hQuotes⟩ :=
        SourceFile.quotes_of_arisesAt hBuild (Execution.arisesAt_of_run hProgram hRun)
      have hPath : ∀ place, ((SourceFile.ofText path text).locate fault).location = some place →
          place.path = path := fun place hPlace => (hQuotes place hPlace).path_eq
      rw [hEnd.state] at hQuotes
      rw [Reply.ofRun, hEnd.output, ofReport_eq_complaint rfl hPath]
      refine .failure fault after _ ?_ ?_
      · rwa [Option.isSome_map]
      · intro number hNumber
        obtain ⟨place, hPlace, rfl⟩ := Option.map_eq_some_iff.mp hNumber
        have hSame := hPath place hPlace
        subst hSame
        exact hQuotes place hPlace

/-- The command answers as the machine does on the words of its standard input. -/
theorem run_agrees {input : String} {stdin : List Chunk}
    (hOptions : parseRun {} options = .ok (.run path.toByteArray config))
    (hFile : readFile path.toByteArray = .ok text.toByteArray)
    (hInput : Chunk.Delivers stdin (Text.encoded input)) :
    (∀ fault, Program.ofLines (Text.fieldLines text) = .error fault →
      ∃ number, SourceFile.Blames text number fault ∧
        (SourceFile.ofText path text).build =
          .error ⟨.program fault, some ⟨path, number⟩⟩ ∧
        ∀ fuel, execute notice fuel readFile ("run".toByteArray :: options) stdin =
          some ⟨1, ByteArray.empty, complaint path (some number) fault⟩) ∧
    ∀ program, Program.ofLines (Text.fieldLines text) = .ok program → ∀ fuel,
      Option.Rel (Answers notice path text program)
        (Execution.run fuel config program ⟨{}, Script.ofText input, {}⟩)
        (execute notice fuel readFile ("run".toByteArray :: options) stdin) := by
  rw [← SourceFile.texts_ofText path text]
  constructor
  · intro fault hFault
    obtain ⟨location, hBuild⟩ := SourceFile.build_of_ofLines_error hFault
    obtain ⟨_, number, hReport, hBlames⟩ := SourceFile.blames_of_build_error hBuild
    cases hReport
    refine ⟨number, hBlames, hBuild, ?_⟩
    intro fuel
    rw [execute_run hOptions hFile, hBuild]
    exact congrArg some (ofReport_eq_complaint rfl (by simp) ByteArray.empty)
  · intro program hProgram fuel
    have hBuild := SourceFile.build_of_ofLines_ok hProgram
    have hOffers : LineReader.Offers ⟨stdin, []⟩ (Script.ofText input).tokens :=
      ⟨input, hInput, rfl⟩
    have hMirrors := Execution.mirrors_run hOffers config program fuel ({} : Sink)
    simp only [execute_run hOptions hFile, hBuild, openSession]
    generalize hRun : Execution.run fuel config program
      (⟨{}, ⟨stdin, []⟩, {}⟩ : Session LineReader Sink) = piped at hMirrors ⊢
    generalize Execution.run fuel config program
      (⟨{}, Script.ofText input, {}⟩ : Session Script Sink) = scripted at hMirrors ⊢
    cases hMirrors with
    | none => exact .none
    | some hAlike => exact .some (answers_ofRun hBuild hRun hAlike)

end Replies

/-- A division by a number that is read, behind a vacant line. -/
def readDivisor : String := "READ N\n \t\nDIV N\n"

/-- The instructions of `readDivisor`. -/
def divisorProgram : Program :=
  ⟨#[⟨"READ N", none, .read, some "N"⟩, ⟨"DIV N", none, .divide, some "N"⟩], ∅, 3⟩

/-- A zero and a sign of three bytes, cut inside both. -/
def cutZero : List Chunk :=
  [.data [48], .data [], .data [48, 10, 226, 130], .data [172]]

/-- The notice of a host that tells every crash alike. -/
def plainNotice (_ : Crash) : String := "Formatting argument out of range\n"

theorem run_agrees_readDivisor :
    parseRun {} ["--max-steps".toByteArray, "9".toByteArray, "p.aal".toByteArray] =
        .ok (.run "p.aal".toByteArray ⟨false, some 9⟩) ∧
      Chunk.Delivers cutZero (Text.encoded "00\n€") ∧
      Program.ofLines (Text.fieldLines readDivisor) = .ok divisorProgram ∧
      ∃ after reply, Execution.run 2 ⟨false, some 9⟩ divisorProgram
          ⟨{}, Script.ofText "00\n€", {}⟩ =
            some (.error (.fault (.divisionByZero "N" ⟨1, "DIV N"⟩)) after :
              Execution.RunResult Script Sink) ∧
        execute plainNotice 2 (fun _ => .ok readDivisor.toByteArray)
            ["run".toByteArray, "--max-steps".toByteArray, "9".toByteArray, "p.aal".toByteArray]
            cutZero = some reply ∧
          reply.stderr = "p.aal:3: error: division by zero in N @1: DIV N\n" := by
  have hOptions : parseRun {} ["--max-steps".toByteArray, "9".toByteArray, "p.aal".toByteArray] =
      .ok (.run "p.aal".toByteArray ⟨false, some 9⟩) := rfl
  have hInput : Chunk.Delivers cutZero (Text.encoded "00\n€") :=
    .data [48] (.data [] (.data [48, 10, 226, 130] (.data [172] .nil)))
  have hProgram : Program.ofLines (Text.fieldLines readDivisor) = .ok divisorProgram := rfl
  obtain ⟨_, hRuns⟩ := @run_agrees plainNotice "p.aal" readDivisor _ _
    (fun _ => .ok readDivisor.toByteArray) "00\n€" _ hOptions rfl hInput
  have hAgrees := hRuns divisorProgram hProgram 2
  have hThird : (SourceFile.ofText "p.aal" readDivisor).lines[1]? = some ⟨3, "DIV N"⟩ := rfl
  obtain ⟨after, hRun, hCounter⟩ : ∃ after : Session Script Sink,
      Execution.run 2 ⟨false, some 9⟩ divisorProgram ⟨{}, Script.ofText "00\n€", {}⟩ =
        some (.error (.fault (.divisionByZero "N" ⟨1, "DIV N"⟩)) after) ∧
          after.state.counter = 1 :=
    ⟨_, rfl, rfl⟩
  rw [hRun] at hAgrees
  refine ⟨hOptions, hInput, hProgram, after, ?_⟩
  generalize execute plainNotice 2 _ _ cutZero = answer at hAgrees ⊢
  cases hAgrees with
  | some hAnswers =>
    cases hAnswers with
    | failure _ _ place hPlaced hQuotes =>
      obtain ⟨number, rfl⟩ := Option.isSome_iff_exists.mp (hPlaced.mpr rfl)
      obtain ⟨_, _, _, _, _, _, hLine⟩ := (hQuotes number rfl).quoted
      rw [hCounter, hThird] at hLine
      have hNumber : 3 = number := congrArg SourceLine.number (Option.some.inj hLine)
      subst hNumber
      exact ⟨_, hRun, rfl, rfl⟩

end CommandLine

end Accumulator
