import Accumulator.Proofs.CommandLine.Agreement
import Accumulator.Proofs.CommandLine.Options
import Accumulator.Proofs.Machine.Verbosity
import Accumulator.Proofs.Source.Pieces

/-! # Exit codes and the error stream

A reply is consistent if it either succeeds in silence or fails with a message. Every reply is, with
two exceptions: help that is asked for behind a command goes to the standard output, as help does,
but with the exit code of a failure; and a command that has to show a line and cannot crashes, with
the exit code and the notice of the host.
-/

namespace Accumulator

set_option autoImplicit false

theorem Fault.message_ne_empty (fault : Fault) : fault.message ≠ "" := by
  cases fault <;> unfold message <;> simp

theorem Cause.message_ne_empty (cause : Cause) : cause.message ≠ "" := by
  cases cause with
  | program fault => exact fault.message_ne_empty
  | file text => simp [message]

namespace CommandLine

/-- A message is marked as one of an error, and the place of the error may stand in front. -/
def IsErrorMessage (text : String) : Prop :=
  ∃ place message, message ≠ "" ∧ text = place ++ "error: " ++ message ++ "\n"

theorem IsErrorMessage.ne_empty {text : String} (h : IsErrorMessage text) : text ≠ "" := by
  obtain ⟨place, message, _, rfl⟩ := h
  simp

theorem isErrorMessage_diagnostic (report : Report) :
    IsErrorMessage (report.diagnostic ++ "\n") := by
  have hMessage := report.cause.message_ne_empty
  cases hPlace : report.location with
  | none => exact ⟨"", report.cause.message, hMessage, by simp [Report.diagnostic, hPlace]⟩
  | some location =>
    refine ⟨location.describe ++ ": ", report.cause.message, hMessage, ?_⟩
    simp [Report.diagnostic, hPlace, String.append_assoc]

namespace Reply

/-- Success comes with an empty error stream, and failure with a message on it. -/
def Consistent (reply : Reply) : Prop :=
  reply.exit = 0 ∧ reply.stderr = "" ∨ reply.exit = 1 ∧ IsErrorMessage reply.stderr

theorem consistent_ofReport (stdout : ByteArray) (report : Report) :
    (ofReport stdout report).Consistent :=
  .inr ⟨rfl, isErrorMessage_diagnostic report⟩

theorem not_consistent_ofCrash (notice : Crash → String) (stdout : ByteArray) (crash : Crash) :
    ¬ (ofCrash notice stdout crash).Consistent := by
  rintro (⟨hExit, _⟩ | ⟨hExit, _⟩) <;> cases hExit

end Reply

/-! ## Crashes -/

section Crashes

variable {notice : Crash → String} {fuel : Nat} {config : Config} {path : ByteArray}
  {readFile : ByteArray → Except FileFault ByteArray} {stdin : List Chunk} {file : SourceFile}
  {program : Program} {reply : Reply}

/-- The request leads to a line of the program that has to be shown and cannot. -/
inductive RequestCrashes (fuel : Nat) (readFile : ByteArray → Except FileFault ByteArray)
    (stdin : List Chunk) : Request → Prop
  | run {path : ByteArray} {config : Config} {file : SourceFile} {program : Program} {count : Nat}
      {reached : Session LineReader Sink} {crash : Crash}
      (hLoad : loadProgram path (readFile path) = .ok (file, program)) (hCount : count < fuel)
      (hReaches : Execution.steps config program count (Execution.restart (openSession stdin)) =
        .ok .running reached)
      (hCrashes : Execution.Crashes config program reached.state crash) :
      RequestCrashes fuel readFile stdin (.run path config)
  | list {path : ByteArray} {file : SourceFile} {program : Program} {index : Nat}
      (hLoad : loadProgram path (readFile path) = .ok (file, program))
      (hCannot : program.CannotShow index) : RequestCrashes fuel readFile stdin (.list path)

theorem requestCrashes_run_iff (hLoad : loadProgram path (readFile path) = .ok (file, program)) :
    RequestCrashes fuel readFile stdin (.run path config) ↔ ∃ crash after,
      Execution.run fuel config program (openSession stdin) =
        some (.error (.crash crash) after) := by
  simp only [Execution.run_eq_crash_iff]
  constructor
  · rintro (⟨hOther, hCount, hReaches, hCrashes⟩ | _)
    have hSame := hOther.symm.trans hLoad
    cases hSame
    exact ⟨_, _, _, hCount, hReaches, hCrashes⟩
  · rintro ⟨_, _, _, hCount, hReaches, hCrashes⟩
    exact .run hLoad hCount hReaches hCrashes

theorem requestCrashes_list_iff (hLoad : loadProgram path (readFile path) = .ok (file, program)) :
    RequestCrashes fuel readFile stdin (.list path) ↔ ¬ program.Showable := by
  rw [Program.Showable, not_forall_not]
  constructor
  · rintro (_ | ⟨hOther, hCannot⟩)
    have hSame := hOther.symm.trans hLoad
    cases hSame
    exact ⟨_, hCannot⟩
  · rintro ⟨_, hCannot⟩
    exact .list hLoad hCannot

theorem not_requestCrashes_of_labelWidth_le (hNarrow : ∀ path file program,
      loadProgram path (readFile path) = .ok (file, program) →
        program.labelWidth ≤ Instruction.maxFill) (request : Request) :
    ¬ RequestCrashes fuel readFile stdin request := by
  intro h
  cases h with
  | run hLoad _ _ hCrashes =>
    exact Execution.not_crashes_of_labelWidth_le (hNarrow _ _ _ hLoad) hCrashes
  | list hLoad hCannot =>
    exact Program.showable_of_labelWidth_le (hNarrow _ _ _ hLoad) _ hCannot

theorem consistent_or_crashes_of_runFile
    (h : runFile notice fuel config path (readFile path) stdin = some reply) :
    reply.Consistent ∧ ¬ RequestCrashes fuel readFile stdin (.run path config) ∨
      RequestCrashes fuel readFile stdin (.run path config) ∧
        ∃ stdout crash, reply = .ofCrash notice stdout crash := by
  rw [runFile] at h
  split at h
  · rename_i report hRefused
    cases h
    refine .inl ⟨Reply.consistent_ofReport _ report, ?_⟩
    rintro (⟨hLoad, _⟩ | _)
    rw [hRefused] at hLoad
    cases hLoad
  · rename_i hLoad
    obtain ⟨result, hRun, rfl⟩ := Option.map_eq_some_iff.mp h
    rw [requestCrashes_run_iff hLoad, hRun]
    rcases result with ⟨outcome, session⟩ | ⟨fault | crash, session⟩
    · exact .inl ⟨.inl ⟨rfl, rfl⟩, by simp⟩
    · exact .inl ⟨Reply.consistent_ofReport _ _, by simp⟩
    · exact .inr ⟨⟨crash, session, rfl⟩, session.output.written, crash, rfl⟩

theorem consistent_or_crashes_listFile (notice : Crash → String) (fuel : Nat) (path : ByteArray)
    (readFile : ByteArray → Except FileFault ByteArray) (stdin : List Chunk) :
    (listFile notice path (readFile path)).Consistent ∧
        ¬ RequestCrashes fuel readFile stdin (.list path) ∨
      RequestCrashes fuel readFile stdin (.list path) ∧
        ∃ stdout crash, listFile notice path (readFile path) = .ofCrash notice stdout crash := by
  rw [listFile]
  split
  · rename_i report hRefused
    refine .inl ⟨Reply.consistent_ofReport _ report, ?_⟩
    rintro (_ | ⟨hLoad, _⟩)
    rw [hRefused] at hLoad
    cases hLoad
  · rename_i program hLoad
    rw [requestCrashes_list_iff hLoad, ← Program.exists_listing_iff]
    cases program.listing with
    | ok text => exact .inl ⟨.inl ⟨rfl, rfl⟩, not_not_intro ⟨text, rfl⟩⟩
    | error crash => exact .inr ⟨nofun, ByteArray.empty, crash, rfl⟩

end Crashes

/-! ## Usage faults -/

/-- The usage can be told from every other message by its first word. -/
theorem startsWith_message_iff {fault : UsageFault} :
    fault.message.startsWith "Usage:" = true ↔ fault = .helpWanted := by
  rw [String.startsWith_string_iff]
  cases fault with
  | helpWanted =>
    have hUsage : "Usage:".toList <+: usage.toList := by
      rw [usage, String.join_cons, String.toList_append]
      exact List.IsPrefix.trans (by decide) (List.prefix_append _ _)
    exact iff_of_true hUsage rfl
  | _ =>
    unfold UsageFault.message
    simp

namespace Reply

/-- The stream is that of the message, whatever the fault is. -/
theorem ofUsageFault_eq (fault : UsageFault) :
    ofUsageFault fault =
      if fault.message.startsWith "Usage:" then ⟨1, (fault.message ++ "\n").toByteArray, ""⟩
      else ⟨1, ByteArray.empty, "error: " ++ fault.message ++ "\n" ++ usage ++ "\n"⟩ := by
  by_cases hHelp : fault = .helpWanted
  · rw [if_pos (startsWith_message_iff.mpr hHelp), hHelp]
    rfl
  · rw [if_neg (mt startsWith_message_iff.mp hHelp)]
    cases fault with
    | helpWanted => exact absurd rfl hHelp
    | _ => rfl

theorem consistent_ofUsageFault_iff (fault : UsageFault) :
    (ofUsageFault fault).Consistent ↔ fault ≠ .helpWanted := by
  rw [ofUsageFault_eq, ne_eq, ← startsWith_message_iff]
  split
  · rename_i hUsage
    refine iff_of_false ?_ (not_not_intro hUsage)
    rintro (⟨hExit, _⟩ | ⟨_, hMessage⟩)
    · cases hExit
    · exact hMessage.ne_empty rfl
  · rename_i hOther
    refine iff_of_true (.inr ⟨rfl, "", fault.message ++ "\n" ++ usage, ?_, ?_⟩) hOther
    · simp
    · simp [String.append_assoc]

end Reply

/-! ## Help behind a command -/

theorem parseList_some_eq_helpWanted_iff {first : ByteArray} {arguments : List ByteArray} :
    parseList (some first) arguments = .error .helpWanted ↔
      ∃ argument rest, arguments = argument :: rest ∧ isHelp (Text.lossy argument) = true := by
  cases arguments with
  | nil => simp [parseList]
  | cons argument rest =>
    simp only [parseList]
    split
    · simp [*]
    · split <;> simp [*]

theorem parseList_eq_helpWanted_iff {arguments : List ByteArray} :
    parseList none arguments = .error .helpWanted ↔
      ∃ (path : Option ByteArray) (argument : ByteArray) (rest : List ByteArray),
        arguments = path.toList ++ argument :: rest ∧
          (∀ name ∈ path, isOption (Text.lossy name) = false) ∧
          isHelp (Text.lossy argument) = true := by
  constructor
  · intro h
    cases arguments with
    | nil => cases h
    | cons argument rest =>
      simp only [parseList] at h
      cases hHelp : isHelp (Text.lossy argument) with
      | true => exact ⟨none, argument, rest, rfl, nofun, hHelp⟩
      | false =>
        cases hOption : isOption (Text.lossy argument) with
        | true => simp [hHelp, hOption] at h
        | false =>
          rw [hHelp, hOption] at h
          obtain ⟨second, back, rfl, hSecond⟩ := parseList_some_eq_helpWanted_iff.mp h
          refine ⟨some argument, second, back, rfl, ?_, hSecond⟩
          rintro _ ⟨⟩
          exact hOption
  · rintro ⟨path, argument, rest, rfl, hPath, hHelp⟩
    cases path with
    | none => simp [parseList, hHelp]
    | some name =>
      have hOption := hPath name rfl
      obtain ⟨hPlain, _⟩ := plain_of_isOption_eq_false hOption
      simp [parseList, hPlain, hOption, hHelp]

/-- Help is asked for where `run` expects an item or `list` a path, behind arguments in order. -/
inductive HelpBehindCommand : List ByteArray → Prop
  | run (items : List Item) (argument : ByteArray) (rest : List ByteArray)
      (hPaths : (items.filterMap Item.path?).length ≤ 1)
      (hHelp : isHelp (Text.lossy argument) = true) :
      HelpBehindCommand ("run".toByteArray :: (items.flatMap Item.arguments ++ argument :: rest))
  | list (path : Option ByteArray) (argument : ByteArray) (rest : List ByteArray)
      (hPath : ∀ name ∈ path, isOption (Text.lossy name) = false)
      (hHelp : isHelp (Text.lossy argument) = true) :
      HelpBehindCommand ("list".toByteArray :: (path.toList ++ argument :: rest))

theorem parse_eq_helpWanted_iff {arguments : List ByteArray} :
    parse arguments = .error .helpWanted ↔ HelpBehindCommand arguments := by
  constructor
  · intro h
    cases arguments with
    | nil => cases h
    | cons command rest =>
      simp only [parse] at h
      split at h
      · cases h
      · by_cases hRun : Text.lossy command = "run"
        · have hRest : parseRun {} rest = .error .helpWanted := by simpa [hRun] using h
          obtain ⟨items, argument, back, rfl, hPaths, hHelp⟩ :=
            parseRun_eq_helpWanted_iff.mp hRest
          rw [(Text.lossy_eq_iff (by decide)).mp hRun]
          exact .run items argument back hPaths hHelp
        · by_cases hList : Text.lossy command = "list"
          · have hRest : parseList none rest = .error .helpWanted := by simpa [hList] using h
            obtain ⟨path, argument, back, rfl, hPath, hHelp⟩ :=
              parseList_eq_helpWanted_iff.mp hRest
            rw [(Text.lossy_eq_iff (by decide)).mp hList]
            exact .list path argument back hPath hHelp
          · simp [hRun, hList] at h
  · intro h
    cases h with
    | run items argument rest hPaths hHelp =>
      rw [parse, Text.lossy_toByteArray]
      exact parseRun_eq_helpWanted_iff.mpr ⟨items, argument, rest, rfl, hPaths, hHelp⟩
    | list path argument rest hPath hHelp =>
      rw [parse, Text.lossy_toByteArray]
      exact parseList_eq_helpWanted_iff.mpr ⟨path, argument, rest, rfl, hPath, hHelp⟩

variable {notice : Crash → String} {fuel : Nat} {arguments : List ByteArray}
  {readFile : ByteArray → Except FileFault ByteArray} {stdin : List Chunk} {reply : Reply}

/-- The arguments make a request that leads to a crash. -/
def CommandCrashes (fuel : Nat) (readFile : ByteArray → Except FileFault ByteArray)
    (arguments : List ByteArray) (stdin : List Chunk) : Prop :=
  ∃ request, parse arguments = .ok request ∧ RequestCrashes fuel readFile stdin request

theorem consistent_or_crashes_of_request {request : Request}
    (hParse : parse arguments = .ok request)
    (h : execute notice fuel readFile arguments stdin = some reply) :
    reply.Consistent ∧ ¬ RequestCrashes fuel readFile stdin request ∨
      RequestCrashes fuel readFile stdin request ∧
        ∃ stdout crash, reply = .ofCrash notice stdout crash := by
  rw [execute, hParse] at h
  cases request with
  | help =>
    cases h
    refine .inl ⟨.inl ⟨rfl, rfl⟩, ?_⟩
    intro hCrashes
    cases hCrashes
  | run path config => exact consistent_or_crashes_of_runFile h
  | list path =>
    cases h
    exact consistent_or_crashes_listFile notice fuel path readFile stdin

/-- Whatever the command is given, if it comes to an end it fails with a message or succeeds without
one, with two exceptions. Where help is asked for behind a command, it fails and shows the usage on
its standard output only. Where it comes to a line that it has to show and cannot, it crashes: it
has the exit code of the host, and the notice of the host on its error stream. No command crashes on
a program whose labels leave a column that can be filled. -/
theorem reply_consistent_iff (h : execute notice fuel readFile arguments stdin = some reply) :
    (reply.Consistent ↔
      ¬ HelpBehindCommand arguments ∧ ¬ CommandCrashes fuel readFile arguments stdin) ∧
    (HelpBehindCommand arguments → reply = ⟨1, (usage ++ "\n").toByteArray, ""⟩) ∧
    (CommandCrashes fuel readFile arguments stdin →
      ∃ stdout crash, reply = ⟨101, stdout, notice crash⟩) ∧
    ((∀ path file program, loadProgram path (readFile path) = .ok (file, program) →
        program.labelWidth ≤ Instruction.maxFill) →
      ¬ CommandCrashes fuel readFile arguments stdin) := by
  have hNarrow : (∀ path file program, loadProgram path (readFile path) = .ok (file, program) →
      program.labelWidth ≤ Instruction.maxFill) →
        ¬ CommandCrashes fuel readFile arguments stdin :=
    fun hFits ⟨request, _, hCrashes⟩ => not_requestCrashes_of_labelWidth_le hFits request hCrashes
  cases hParse : parse arguments with
  | error fault =>
    rw [execute, hParse] at h
    cases h
    have hFault : HelpBehindCommand arguments ↔ fault = .helpWanted := by
      rw [← parse_eq_helpWanted_iff, hParse, Except.error.injEq]
    have hSurvives : ¬ CommandCrashes fuel readFile arguments stdin := by
      rintro ⟨request, hRequest, _⟩
      rw [hParse] at hRequest
      cases hRequest
    refine ⟨?_, ?_, fun hCrashes => absurd hCrashes hSurvives, hNarrow⟩
    · rw [hFault, and_iff_left hSurvives]
      exact Reply.consistent_ofUsageFault_iff fault
    · rw [hFault]
      rintro rfl
      rfl
  | ok request =>
    have hNoHelp : ¬ HelpBehindCommand arguments := by
      simp [← parse_eq_helpWanted_iff, hParse]
    have hCommand : CommandCrashes fuel readFile arguments stdin ↔
        RequestCrashes fuel readFile stdin request := by
      rw [CommandCrashes, hParse]
      simp
    rw [hCommand] at hNarrow ⊢
    rcases consistent_or_crashes_of_request hParse h with
      ⟨hConsistent, hSurvives⟩ | ⟨hCrashes, stdout, crash, rfl⟩
    · exact ⟨iff_of_true hConsistent ⟨hNoHelp, hSurvives⟩, fun hHelp => absurd hHelp hNoHelp,
        fun hCrashes => absurd hCrashes hSurvives, hNarrow⟩
    · exact ⟨iff_of_false (Reply.not_consistent_ofCrash notice stdout crash)
          fun hBoth => hBoth.2 hCrashes,
        fun hHelp => absurd hHelp hNoHelp, fun _ => ⟨stdout, crash, rfl⟩, hNarrow⟩

theorem loadProgram_longLine {count : Nat} (h : 0 < count) (path : String) :
    loadProgram path.toByteArray (.ok (Program.longLine count).toByteArray) =
      .ok (SourceFile.ofText path (Program.longLine count), Program.longProgram count) := by
  have hFree : '\n' ∉ (Program.longLine count).toList := by
    simp [Program.longLine, Program.longLabel, List.mem_replicate]
  have hCut : Text.IsCut (Program.longLine count).toList [] (Program.longLine count).toList :=
    ⟨rfl, by simp, hFree⟩
  have hLines : Text.fieldLines (Program.longLine count) = [Program.longLine count] := by
    rw [Text.fieldLines, Text.lines_of_isCut hCut, if_neg (by simp [Program.longLine])]
    simp [Program.fields_longLine h]
  have hBuild : (SourceFile.ofText path (Program.longLine count)).build =
      .ok (Program.longProgram count) := by
    apply SourceFile.build_of_ofLines_ok
    rw [SourceFile.texts_ofText, hLines]
    exact Program.ofLines_longLine h
  rw [loadProgram_toByteArray, hBuild]
  rfl

/-- Where a number is expected an option for help is none, and behind a path it is one. A label of
nearly as many bytes as the formatter fills keeps a listing from being shown. -/
theorem reply_consistent_iff_helpForCount :
    (∃ reply, execute plainNotice 0 (fun _ => .error .missing)
        (["run", "--max-steps", "--help"].map String.toByteArray) [] = some reply ∧
      reply.Consistent ∧ reply.exit = 1) ∧
    (HelpBehindCommand (["list", "p.aal", "-h"].map String.toByteArray) ∧
      execute plainNotice 0 (fun _ => .error .missing)
          (["list", "p.aal", "-h"].map String.toByteArray) [] =
        some ⟨1, (usage ++ "\n").toByteArray, ""⟩) ∧
    ∃ reply, execute plainNotice 0 (fun _ => .ok (Program.longLine 65533).toByteArray)
        (["list", "p.aal"].map String.toByteArray) [] = some reply ∧
      reply.exit = 101 ∧ reply.stderr = "Formatting argument out of range\n" := by
  refine ⟨?_, ?_, ?_⟩
  · have hRefused : execute plainNotice 0 (fun _ => .error .missing)
        (["run", "--max-steps", "--help"].map String.toByteArray) [] =
          some (.ofUsageFault (.invalidStepCount "--help")) := rfl
    have hNoHelp :
        ¬ HelpBehindCommand (["run", "--max-steps", "--help"].map String.toByteArray) := by
      rw [← parse_eq_helpWanted_iff]
      nofun
    have hSurvives : ¬ CommandCrashes 0 (fun _ => .error .missing)
        (["run", "--max-steps", "--help"].map String.toByteArray) [] := by
      rintro ⟨request, hRequest, _⟩
      cases hRequest
    exact ⟨_, hRefused, (reply_consistent_iff hRefused).1.mpr ⟨hNoHelp, hSurvives⟩, rfl⟩
  · have hShown : execute plainNotice 0 (fun _ => .error .missing)
        (["list", "p.aal", "-h"].map String.toByteArray) [] =
          some (.ofUsageFault .helpWanted) := rfl
    have hHelp : HelpBehindCommand (["list", "p.aal", "-h"].map String.toByteArray) :=
      .list (some "p.aal".toByteArray) "-h".toByteArray [] (by decide) (by decide)
    refine ⟨hHelp, ?_⟩
    rw [hShown, (reply_consistent_iff hShown).2.1 hHelp]
  · have hListed : execute plainNotice 0 (fun _ => .ok (Program.longLine 65533).toByteArray)
        (["list", "p.aal"].map String.toByteArray) [] =
          some (listFile plainNotice "p.aal".toByteArray
            (.ok (Program.longLine 65533).toByteArray)) := rfl
    have hLine := Program.line?_longProgram (show Instruction.maxFill < 65533 + 3 by decide)
    have hCrashes : CommandCrashes 0 (fun _ => .ok (Program.longLine 65533).toByteArray)
        (["list", "p.aal"].map String.toByteArray) [] :=
      ⟨.list "p.aal".toByteArray, rfl, .list (loadProgram_longLine (by decide) "p.aal")
        (Program.line?_eq_error_iff.mp hLine).1⟩
    obtain ⟨stdout, crash, hReply⟩ := (reply_consistent_iff hListed).2.2.1 hCrashes
    rw [hListed, hReply]
    exact ⟨_, rfl, rfl, rfl⟩

/-- Help behind `run` gives the exit code of a failure and leaves the error stream empty. -/
theorem exists_failure_without_message :
    ∃ reply, execute plainNotice 0 (fun _ => .error .missing)
        (["run", "--help"].map String.toByteArray) [] = some reply ∧
      reply.exit = 1 ∧ reply.stderr = "" ∧ ¬ reply.Consistent := by
  refine ⟨_, rfl, rfl, rfl, ?_⟩
  exact mt (Reply.consistent_ofUsageFault_iff .helpWanted).mp (not_not_intro rfl)

end CommandLine

end Accumulator
