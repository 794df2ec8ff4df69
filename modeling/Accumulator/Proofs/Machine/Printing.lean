import Accumulator.Proofs.Device.Printout
import Accumulator.Proofs.Machine.History
import Accumulator.Proofs.Machine.Range

/-! # Printed values

A quiet run of a program without a `READ` writes the values that its `PRINT`s have printed, a line
for each, and one more line feed if it comes to an `END`. As every value of a run is in the range of
the machine, the text that a run has written is read back as these values by whatever machine reads
it next, and each is stored unchanged.
-/

namespace Accumulator

set_option autoImplicit false

/-! ## The text of a history -/

namespace Executed

variable {ι : Type}

/-- The value that an executed `PRINT` has printed. -/
def printed? (entry : Executed ι) : Option Word :=
  if entry.instruction.opcode = .print then
    (entry.before.operandValue entry.instruction entry.site).toOption
  else
    none

theorem of_printed? {entry : Executed ι} {value : Word} (h : entry.printed? = some value) :
    entry.instruction.opcode = .print ∧
      entry.before.operandValue entry.instruction entry.site = .ok value := by
  unfold printed? at h
  split at h
  · rename_i hOpcode
    cases hValue : entry.before.operandValue entry.instruction entry.site with
    | error fault =>
      rw [hValue] at h
      cases h
    | ok found =>
      rw [hValue] at h
      cases h
      exact ⟨hOpcode, rfl⟩
  · cases h

/-- What a quiet machine writes for an executed instruction, unless it is a `READ`. -/
def display (entry : Executed ι) : String :=
  printout entry.printed?.toList ++ if entry.instruction.opcode = .halt then "\n" else ""

end Executed

def printed {ι : Type} (entries : List (Executed ι)) : List Word :=
  entries.filterMap Executed.printed?

def StepOutcome.ending : StepOutcome → String
  | .finished .halted => "\n"
  | _ => ""

theorem StepOutcome.isSpace_ending (outcome : StepOutcome) :
    outcome.ending.toList.all Text.isSpace = true := by
  cases outcome with
  | running => decide
  | finished termination => cases termination <;> decide

theorem printed_concat {ι : Type} (entries : List (Executed ι)) (entry : Executed ι) :
    printed (entries ++ [entry]) = printed entries ++ entry.printed?.toList := by
  rw [printed, List.filterMap_append, List.filterMap_cons]
  cases entry.printed? <;> rfl

def Effect.display : Effect → String
  | print _ value => Decimal.ofWord value ++ "\n"
  | halt => "\n"
  | _ => ""

theorem Executed.display_eq {ι : Type} {entry : Executed ι} {effect : Effect}
    (h : entry.before.Decides entry.instruction entry.before.counter effect) :
    entry.display = effect.display := by
  unfold display printed?
  cases h with
  | print hOpcode hValue =>
    rw [if_pos hOpcode, site, hValue, if_neg (by simp [hOpcode]), String.append_empty]
    exact printout_singleton _
  | compute _ hComputes =>
    generalize entry.instruction.opcode = opcode at hComputes ⊢
    cases hComputes <;> simp [printout_nil, Effect.display]
  | branch hBranch =>
    generalize entry.instruction.opcode = opcode at hBranch ⊢
    cases opcode <;> simp_all [printout_nil, Effect.display, Opcode.isBranch]
  | halt hOpcode => simp [hOpcode, printout_nil, Effect.display]
  | store hOpcode | declare hOpcode | read hOpcode => simp [hOpcode, printout_nil, Effect.display]

def Program.NeverReads (program : Program) : Prop :=
  ∀ instruction ∈ program.instructions, instruction.opcode ≠ .read

namespace Execution

variable {ι ω : Type} [InputDevice ι] [OutputDevice ω] {program : Program} {limit : Option UInt64}
  {instruction : Instruction}

/-- The text is as it was, and if the computation has succeeded, with more behind it. -/
def Extends {α : Type} (text more : String) :
    EStateM.Result Failure (Session ι (Recorder ω)) α → Prop
  | .ok _ next => next.output.text = text ++ more
  | .error _ next => next.output.text = text

omit [InputDevice ι] in
theorem extends_emit {α : Type} (more : String) (value : α) (session : Session ι (Recorder ω)) :
    Extends session.output.text more
      ((emit more >>= fun _ => pure value : Execution ι (Recorder ω) α) session) := by
  cases h : (emit more >>= fun _ => pure value : Execution ι (Recorder ω) α) session with
  | ok result next =>
    obtain ⟨_, _, hEmit, hNext⟩ := bind_eq_ok_iff.mp h
    obtain ⟨_, hWrite, rfl⟩ := emit_eq_ok_iff.mp hEmit
    cases hNext
    exact Recorder.text_of_watch_ok hWrite
  | error failure next =>
    rcases bind_eq_error_iff.mp h with hEmit | ⟨_, _, _, hNext⟩
    · obtain ⟨_, _, hWrite, _, rfl⟩ := emit_eq_error_iff.mp hEmit
      exact Recorder.text_of_watch_error hWrite
    · cases hNext

theorem extends_perform (limit : Option UInt64) (program : Program) (site : Site)
    {effect : Effect} (hSilent : ∀ name, effect ≠ .read name) (session : Session ι (Recorder ω)) :
    Extends session.output.text effect.display
      (perform ⟨false, limit⟩ program site effect session) := by
  cases effect with
  | compute value => exact String.append_empty.symm
  | store name value => exact String.append_empty.symm
  | print operand value => exact extends_emit _ (some (site.index + 1)) session
  | branch taken label =>
    cases taken with
    | false => exact String.append_empty.symm
    | true =>
      have hPerform : perform ⟨false, limit⟩ program site (.branch true label) session =
          (require .fault (jumpIndex program label site.index) >>= fun target => pure (some target))
            session := rfl
      rw [hPerform]
      cases jumpIndex program label site.index with
      | ok target => exact String.append_empty.symm
      | error fault => rfl
  | read name => exact absurd rfl (hSilent name)
  | halt => exact extends_emit _ none session

/-- A quiet step, unless it reads, writes what it has executed, and nothing if it fails. -/
theorem extends_step {session : Session ι (Recorder ω)} {entry : Executed ι}
    (hFound : program.get? session.state.counter = some entry.instruction)
    (hBefore : entry.before = session.state) (hSilent : entry.instruction.opcode ≠ .read) :
    Extends session.output.text entry.display (step ⟨false, limit⟩ program session) := by
  have hShown : announce ⟨false, limit⟩ program entry.instruction session.state.counter session =
      .ok () session := by
    rw [announce, if_neg (by simp [hSilent])]
    rfl
  rw [step_eq, hFound]
  simp only [hShown]
  cases Config.spentLimit? ⟨false, limit⟩ session.state.steps with
  | some limit => rfl
  | none =>
    cases hEffect : session.state.effect entry.instruction session.state.counter with
    | error fault => rfl
    | ok effect =>
      have hDisplay : entry.display = effect.display :=
        Executed.display_eq (hBefore ▸ MachineState.decides_of_effect hEffect)
      have hSilentEffect : ∀ name, effect ≠ .read name := by
        rintro name rfl
        cases MachineState.decides_of_effect hEffect with
        | read hOpcode => exact hSilent hOpcode
      have hPerform := extends_perform limit program
        (entry.instruction.site session.state.counter) hSilentEffect session
      rw [hDisplay]
      dsimp only
      generalize perform ⟨false, limit⟩ program _ effect session = performed at hPerform ⊢
      cases performed with
      | error failure next => exact hPerform
      | ok index next => cases index <;> exact hPerform

theorem ending_of_step {config : Config} {session next : Session ι ω} {outcome : StepOutcome}
    (hFound : program.get? session.state.counter = some instruction)
    (h : step config program session = .ok outcome next) :
    outcome.ending = if instruction.opcode = .halt then "\n" else "" := by
  have hHalts : ∀ {found : Instruction} {effect : Effect} {announced : Session ι ω},
      Issues config program session found effect announced →
      (effect = .halt ↔ instruction.opcode = .halt) := by
    intro found effect announced hIssues
    have hSame := hIssues.fetched.symm.trans hFound
    cases hSame
    have hDecides := MachineState.decides_of_effect hIssues.decided
    constructor
    · rintro rfl
      cases hDecides with
      | halt hOpcode => exact hOpcode
    · exact hDecides.eq_halt
  cases step_ok h with
  | ranOff hEnd =>
    rw [hFound] at hEnd
    cases hEnd
  | write hIssues hCommits =>
    rw [if_neg]
    · rfl
    · rw [← hHalts hIssues]
      rintro rfl
      cases hCommits
  | proceed hIssues hProceeds =>
    rw [if_neg]
    · rfl
    · rw [← hHalts hIssues]
      rintro rfl
      cases hProceeds
  | halt hIssues =>
    rw [if_pos ((hHalts hIssues).mp rfl)]
    rfl

theorem text_of_steps (hSilent : program.NeverReads) {session reached : Session ι (Recorder ω)}
    {count : Nat} {outcome : StepOutcome}
    (h : steps ⟨false, limit⟩ program count session = .ok outcome reached) :
    reached.output.text = session.output.text ++
      (printout (printed (history ⟨false, limit⟩ program count session)) ++ outcome.ending) := by
  refine history_induction (P := fun entries outcome reached =>
    reached.output.text = session.output.text ++ (printout (printed entries) ++ outcome.ending))
    ?_ ?_ ?_ h
  · intro entries before instruction outcome next hBefore hFound hStep
    have hMember : instruction ∈ program.instructions := Array.mem_of_getElem? hFound
    have hExtends : Extends before.output.text (Executed.ofSessions instruction before next).display
        (step ⟨false, limit⟩ program before) := extends_step hFound rfl (hSilent _ hMember)
    rw [hStep] at hExtends
    have hDisplay : (Executed.ofSessions instruction before next).display =
        printout (Executed.ofSessions instruction before next).printed?.toList ++
          outcome.ending := by
      rw [Executed.display, ending_of_step hFound hStep]
      rfl
    calc
      next.output.text = before.output.text ++
          (Executed.ofSessions instruction before next).display := hExtends
      _ = session.output.text ++ (printout (printed entries) ++
          printout (Executed.ofSessions instruction before next).printed?.toList ++
            outcome.ending) := by
        rw [hBefore, hDisplay]
        simp only [StepOutcome.ending, String.append_empty, String.append_assoc]
      _ = _ := by rw [printed_concat, printout_append]
  · intro entries before hBefore
    exact hBefore
  · simp [printed, printout_nil, StepOutcome.ending]

def stepsEnding : EStateM.Result Failure (Session ι ω) StepOutcome → String
  | .ok outcome _ => outcome.ending
  | .error _ _ => ""

theorem written_eq_printout (hSilent : program.NeverReads) (limit : Option UInt64) (count : Nat)
    (session : Session ι ω) :
    written ⟨false, limit⟩ program count session =
      printout (printed (history ⟨false, limit⟩ program count session)) ++
        stepsEnding (steps ⟨false, limit⟩ program count session) := by
  have hAlike := copies_steps ⟨false, limit⟩ program count session
  rw [written, ← history_of_copies (copies_record session)]
  generalize hRecorded : steps ⟨false, limit⟩ program count (record session) = recorded,
    steps ⟨false, limit⟩ program count session = plain at hAlike ⊢
  cases hAlike with
  | ok outcome =>
    have hText := text_of_steps hSilent hRecorded
    rw [final, hText]
    exact String.empty_append
  | error failure =>
    obtain ⟨earlier, before, hEarlier, hLast, hHistory⟩ := exists_failing_step hRecorded
    have hText := text_of_steps hSilent hEarlier
    cases hFound : program.get? before.state.counter with
    | none =>
      rw [step_eq, hFound] at hLast
      cases hLast
    | some instruction =>
      have hMember : instruction ∈ program.instructions := Array.mem_of_getElem? hFound
      have hExtends : Extends before.output.text
          (Executed.ofSessions instruction before before).display
          (step ⟨false, limit⟩ program before) := extends_step hFound rfl (hSilent _ hMember)
      rw [hLast] at hExtends
      rw [hHistory, final, hExtends, hText]
      exact String.empty_append

def runEnding : RunResult ι ω → String
  | .ok outcome _ => (StepOutcome.finished outcome.termination).ending
  | .error _ _ => ""

omit [InputDevice ι] [OutputDevice ω] in
theorem isSpace_runEnding (result : RunResult ι ω) :
    (runEnding result).toList.all Text.isSpace = true := by
  cases result with
  | error => rfl
  | ok outcome => exact StepOutcome.isSpace_ending (.finished outcome.termination)

theorem concluded_of_run {config : Config} {fuel : Nat} {session : Session ι ω}
    {result : RunResult ι ω} (hNever : NeverFails session.output)
    (h : run fuel config program session = some result) :
    stepsEnding (steps config program fuel (restart session)) = runEnding result ∧
      Received session.output (final result).output
        (written config program fuel (restart session)) := by
  have hStart : NeverFails (restart session).output := hNever
  have hWritten := received_written config program fuel hStart
  obtain ⟨output, hFlush, hReceived⟩ := hStart.flush hWritten
  have hFlushed : onOutput OutputDevice.flush
      (final (steps config program fuel (restart session))) = .ok () ⟨_, _, output⟩ :=
    onOutput_eq_ok_iff.mpr ⟨output, hFlush, rfl⟩
  rcases exists_steps_of_run h with
    ⟨termination, reached, hSteps, rfl⟩ | ⟨fault | crash, reached, hSteps, rfl⟩
  case inr.crash =>
    rw [hSteps] at hWritten ⊢
    exact ⟨rfl, hWritten⟩
  all_goals
    rw [hSteps] at hFlushed ⊢
    simp only [final] at hFlushed
    simp only [conclude, hFlushed]
    exact ⟨rfl, hReceived⟩

/-! ## Reading it back -/

/-- On any machine a `READ` that comes to the value stores it unchanged, and leaves the rest. -/
structure TakesUnchanged (script rest : Script) (value : Word) : Prop where
  stores : ∀ {ω : Type} [OutputDevice ω] (config : Config) (program : Program)
    (session next : Session Script ω) (instruction : Instruction) (outcome : StepOutcome),
    session.input = script → program.get? session.state.counter = some instruction →
    instruction.opcode = .read → step config program session = .ok outcome next →
    next.state.get? instruction.target = some value ∧ next.input = rest
  succeeds : ∀ {ω : Type} [OutputDevice ω] (config : Config) (program : Program)
    (session : Session Script ω) (instruction : Instruction),
    session.input = script → Starts config program session instruction →
    instruction.opcode = .read → NeverFails session.output →
    ∃ next, step config program session = .ok .running next

theorem stores_of_read {config : Config} {session next : Session ι ω} {outcome : StepOutcome}
    {value : Word} {rest : ι} (hFound : program.get? session.state.counter = some instruction)
    (hOpcode : instruction.opcode = .read) (hRead : InputDevice.read session.input = .ok value rest)
    (h : step config program session = .ok outcome next) :
    next.state.get? instruction.target = some (Word.reduce value) ∧ next.input = rest := by
  obtain ⟨effect, hDecides, hCarries⟩ := carriesOut_of_step hFound h
  cases hDecides.eq_read hOpcode
  obtain ⟨_, hTaken, hGet⟩ := hCarries.of_read
  have hSame := hRead.symm.trans hTaken
  cases hSame
  exact ⟨hGet, rfl⟩

theorem exists_step_of_read {config : Config} {session : Session ι ω} {value : Word} {rest : ι}
    (hStarts : Starts config program session instruction) (hOpcode : instruction.opcode = .read)
    (hRead : InputDevice.read session.input = .ok value rest) (hNever : NeverFails session.output) :
    ∃ next, step config program session = .ok .running next := by
  obtain ⟨output, hShown⟩ := hStarts.exists_announce hNever
  obtain ⟨_, hAnnounced⟩ := exists_received_of_announce hShown
  obtain ⟨_, hFlush, _⟩ := hNever.flush hAnnounced
  have hIssues : Issues config program session instruction (.read instruction.target)
      ⟨session.state, session.input, output⟩ := by
    refine ⟨hStarts.fetched, hStarts.unspent, hShown, ?_⟩
    rw [MachineState.effect, hOpcode]
  exact (Commits.read instruction.target _ hFlush hRead).exists_step hIssues hNever

theorem takesUnchanged_of_reduced {value : Word} (h : Word.Reduced value) (tokens : List String) :
    TakesUnchanged ⟨Decimal.ofWord value :: tokens⟩ ⟨tokens⟩ value := by
  have hRead : InputDevice.read (⟨Decimal.ofWord value :: tokens⟩ : Script) =
      .ok value ⟨tokens⟩ := by
    simp only [InputDevice.read, Script.read, readToken_ofWord h]
  constructor
  case stores =>
    intro _ _ config program session next instruction outcome hInput hFound hOpcode hStep
    obtain ⟨hGet, hRest⟩ := stores_of_read hFound hOpcode (hInput ▸ hRead) hStep
    rw [Word.reduce_eq_self h] at hGet
    exact ⟨hGet, hRest⟩
  case succeeds =>
    intro _ _ config program session instruction hInput hStarts hOpcode hNever
    exact exists_step_of_read hStarts hOpcode (hInput ▸ hRead) hNever

/-- A script of the text gives the values, in order, and nothing else, and a `READ` of each of them
stores it unchanged. -/
structure ReadsBack (text : String) (values : List Word) : Prop where
  readings : ∀ index, readings (Script.ofText text) index =
    match values[index]? with
    | some value => .ok value
    | none => .error .exhausted
  reduce_eq : ∀ value ∈ values, Word.reduce value = value
  taken : ∀ index value, values[index]? = some value →
    TakesUnchanged ⟨(Script.ofText text).tokens.drop index⟩
      ⟨(Script.ofText text).tokens.drop (index + 1)⟩ value

theorem readsBack_printout {values : List Word} (hReduced : ∀ value ∈ values, Word.Reduced value)
    {ending : String} (hEnding : ending.toList.all Text.isSpace = true) :
    ReadsBack (printout values ++ ending) values where
  readings := readings_printout hReduced hEnding
  reduce_eq value hMem := Word.reduce_eq_self (hReduced value hMem)
  taken index value hValue := by
    obtain ⟨hIndex, rfl⟩ := List.getElem?_eq_some_iff.mp hValue
    have hWords : (Script.ofText (printout values ++ ending)).tokens =
        values.map Decimal.ofWord := words_printout values hEnding
    have hDrop : (values.map Decimal.ofWord).drop index = Decimal.ofWord values[index] ::
        (values.map Decimal.ofWord).drop (index + 1) := by
      rw [List.drop_eq_getElem_cons (by simpa using hIndex), List.getElem_map]
    rw [hWords, hDrop]
    exact takesUnchanged_of_reduced (hReduced _ (List.getElem_mem hIndex)) _

theorem reduced_of_printed {config : Config} (count : Nat) (session : Session ι ω) :
    ∀ value ∈ printed (history config program count (restart session)), Word.Reduced value := by
  have hBounded : ∀ entry ∈ history config program count (restart session),
      entry.before.Bounded := by
    refine forall_mem_history (I := fun session => session.state.Bounded) ?_
      MachineState.bounded_zero
    intro before instruction outcome next hBefore hFound hStep
    have hNext := bounded_step config program before hBefore
    rw [hStep] at hNext
    exact ⟨hBefore, hNext⟩
  intro value hMem
  obtain ⟨entry, hEntry, hPrinted⟩ := List.mem_filterMap.mp hMem
  obtain ⟨_, hValue⟩ := Executed.of_printed? hPrinted
  exact (hBounded entry hEntry).operandValue hValue

/-- What a quiet run of a program without a `READ` writes, on an output that never fails, are the
values that it has printed, each on a line, and one more line feed if it came to an `END`. The text
is read back as exactly these values, by whatever machine, and each is stored unchanged. -/
theorem printed_values_read_back (limit : Option UInt64) (program : Program) (session : Session ι ω)
    (hSilent : program.NeverReads) (hNever : NeverFails session.output) {fuel : Nat}
    {result : RunResult ι ω} (hRun : run fuel ⟨false, limit⟩ program session = some result) :
    ∃ values text, values = printed (history ⟨false, limit⟩ program fuel (restart session)) ∧
      text = printout values ++ runEnding result ∧
      written ⟨false, limit⟩ program fuel (restart session) = text ∧
      Received session.output (final result).output text ∧ ReadsBack text values := by
  obtain ⟨hEnding, hReceived⟩ := concluded_of_run hNever hRun
  have hWritten := written_eq_printout hSilent limit fuel (restart session)
  rw [hEnding] at hWritten
  refine ⟨_, _, rfl, rfl, hWritten, hWritten ▸ hReceived, ?_⟩
  exact readsBack_printout (reduced_of_printed fuel session) (isSpace_runEnding result)

def printDifference : Program :=
  ⟨#[⟨"LOAD =3", none, .load, some "=3"⟩, ⟨"SUB =8", none, .subtract, some "=8"⟩,
    ⟨"STORE N", none, .store, some "N"⟩, ⟨"PRINT N", none, .print, some "N"⟩,
    ⟨"PRINT =12", none, .print, some "=12"⟩, ⟨"F END", some "F", .halt, none⟩],
    (∅ : SymbolTable).insert "F" ⟨5, .code⟩, 4⟩

theorem printed_values_read_back_printDifference :
    printDifference.NeverReads ∧ NeverFails idleSession.output ∧
      ∃ result, run 6 ⟨false, none⟩ printDifference idleSession = some result ∧
        printed (history ⟨false, none⟩ printDifference 6 (restart idleSession)) = [-5, 12] ∧
        written ⟨false, none⟩ printDifference 6 (restart idleSession) = "-5\n12\n\n" ∧
        ReadsBack "-5\n12\n\n" [-5, 12] := by
  have hSilent : printDifference.NeverReads := by
    unfold Program.NeverReads
    decide
  have hNever : NeverFails idleSession.output := Sink.neverFails ByteArray.empty
  have hRun : run 6 ⟨false, none⟩ printDifference idleSession = some _ := rfl
  obtain ⟨values, text, hValues, hText, hWritten, _, hReads⟩ :=
    printed_values_read_back none printDifference idleSession hSilent hNever hRun
  have hPrinted : printed (history ⟨false, none⟩ printDifference 6 (restart idleSession)) =
    [-5, 12] := rfl
  rw [hPrinted] at hValues
  subst hValues
  have hLines : text = "-5\n12\n\n" := hText
  subst hLines
  exact ⟨hSilent, hNever, _, hRun, hPrinted, hWritten, hReads⟩

end Execution

end Accumulator
