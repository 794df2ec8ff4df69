import Accumulator.Proofs.Machine.Recording
import Accumulator.Proofs.Program.Display

/-! # Verbose and quiet runs

On an output that never fails a verbose run differs from a quiet one in its output only, and the
quiet output is the verbose output with parts left out. Both runs are recorded and followed in
lockstep: what the quiet one writes the other writes too, and what the verbose one writes besides
is skipped. This goes on until the verbose run crashes, which it does where the quiet one executes
an instruction whose line cannot be shown.
-/

namespace Accumulator.Execution

set_option autoImplicit false

variable {ι ω : Type} [OutputDevice ω] {start : ω}

/-- The verbose session is ahead of the quiet one by some output, and by nothing else. -/
structure Shadows (start : ω) (quiet verbose : Session ι (Recorder ω)) : Prop where
  state : quiet.state = verbose.state
  input : quiet.input = verbose.input
  short : Received start quiet.output.device quiet.output.text
  long : Received start verbose.output.device verbose.output.text
  sublist : quiet.output.text.toList.Sublist verbose.output.text.toList

theorem shadows_record (session : Session ι ω) :
    Shadows session.output (record session) (record session) :=
  ⟨rfl, rfl, .start, .start, List.Sublist.refl _⟩

theorem lockstep_emit (hNever : NeverFails start) (text : String) :
    Lockstep (Shadows start) (emit text : Execution ι (Recorder ω) Unit) (emit text) := by
  intro quiet verbose h
  obtain ⟨_, hQuiet, hShort⟩ := emit_recorded hNever h.short text
  obtain ⟨_, hVerbose, hLong⟩ := emit_recorded hNever h.long text
  rw [hQuiet, hVerbose]
  refine .ok () ⟨h.state, h.input, hShort, hLong, ?_⟩
  simp only [String.toList_append]
  exact h.sublist.append_right text.toList

/-- What only the verbose run writes. -/
theorem lockstep_skip (hNever : NeverFails start) (text : String) :
    Lockstep (Shadows start) (pure () : Execution ι (Recorder ω) Unit) (emit text) := by
  intro quiet verbose h
  obtain ⟨_, hVerbose, hLong⟩ := emit_recorded hNever h.long text
  rw [hVerbose]
  refine .ok () ⟨h.state, h.input, h.short, hLong, ?_⟩
  simp only [String.toList_append]
  exact h.sublist.trans (List.sublist_append_left _ text.toList)

theorem lockstep_flush (hNever : NeverFails start) :
    Lockstep (Shadows start)
      (onOutput OutputDevice.flush : Execution ι (Recorder ω) Unit)
      (onOutput OutputDevice.flush) := by
  intro quiet verbose h
  obtain ⟨_, hQuiet, hShort⟩ := flush_recorded hNever h.short
  obtain ⟨_, hVerbose, hLong⟩ := flush_recorded hNever h.long
  rw [hQuiet, hVerbose]
  exact .ok () ⟨h.state, h.input, hShort, hLong, h.sublist⟩

variable [InputDevice ι]

/-- The verbose run has crashed, however far the quiet one has come. -/
def HasCrashed (_ : Session ι (Recorder ω)) (failure : Failure) (_ : Session ι (Recorder ω)) :
    Prop :=
  ∃ crash, failure = .crash crash

omit [InputDevice ι] in
theorem follows_skipped_line (hNever : NeverFails start) (program : Program) (index : Nat) :
    Follows (Shadows start) HasCrashed (pure () : Execution ι (Recorder ω) Unit)
      (showLine program index) where
  alike quiet verbose h := by
    cases hLine : program.line? index with
    | error crash =>
      rw [showLine_eq_error_iff.mpr (.inr ⟨crash, hLine, rfl, rfl⟩)]
      exact .lost ⟨crash, rfl⟩
    | ok line =>
      have hShow : showLine program index verbose = emit (line.getD "" ++ " ") verbose := by
        rw [showLine, hLine]
        rfl
      rw [hShow]
      exact .alike (lockstep_skip hNever _ quiet verbose h)
  lost _ _ _ h := h

theorem tolerates_shadows (hNever : NeverFails start) (limit : Option UInt64) :
    Tolerates (Shadows start : Session ι (Recorder ω) → Session ι (Recorder ω) → Prop) HasCrashed
      ⟨false, limit⟩ ⟨true, limit⟩ where
  state _ _ h := h.state
  limit := rfl
  change update := .of_lockstep
    (fun _ _ h => .ok () ⟨congrArg update h.state, h.input, h.short, h.long, h.sublist⟩)
    fun _ _ _ h => h
  takeInput site := .of_lockstep
    (lockstep_takeInput (fun _ _ h => h.input)
      (fun _ _ _ h => ⟨h.state, rfl, h.short, h.long, h.sublist⟩) site)
    fun _ _ _ h => h
  emit text := .of_lockstep (lockstep_emit hNever text) fun _ _ _ h => h
  echo text := .of_lockstep (lockstep_skip hNever text) fun _ _ _ h => h
  traceLine program index := follows_skipped_line hNever program index
  flush := .of_lockstep (lockstep_flush hNever) fun _ _ _ h => h

/-! ## Whole runs -/

/-- Equal but for the output. -/
structure Agree (left right : Session ι ω) : Prop where
  state : left.state = right.state
  input : left.input = right.input

omit [OutputDevice ω] [InputDevice ι] in
theorem Agree.of_copies {quiet verbose : Session ι (Recorder ω)} {left right : Session ι ω}
    (hState : quiet.state = verbose.state) (hInput : quiet.input = verbose.input)
    (hLeft : Copies quiet left) (hRight : Copies verbose right) : Agree left right where
  state := by rw [← hLeft.state, hState, hRight.state]
  input := by rw [← hLeft.input, hInput, hRight.input]

omit [InputDevice ι] in
theorem agree_of_shadows {α : Type}
    {quiet verbose : EStateM.Result Failure (Session ι (Recorder ω)) α}
    {left right : EStateM.Result Failure (Session ι ω) α} (h : Alike (Shadows start) quiet verbose)
    (hLeft : Alike Copies quiet left) (hRight : Alike Copies verbose right) :
    Alike Agree left right := by
  cases h with
  | ok value h =>
    cases hLeft with
    | ok _ hLeft =>
      cases hRight with
      | ok _ hRight => exact .ok value (.of_copies h.state h.input hLeft hRight)
  | error failure h =>
    cases hLeft with
    | error _ hLeft =>
      cases hRight with
      | error _ hRight => exact .error failure (.of_copies h.state h.input hLeft hRight)

/-! ## Lines that only a verbose run shows -/

/-- Only a verbose machine shows the line of the instruction at the counter, and cannot do so. -/
structure Hides (limit : Option UInt64) (program : Program) (state : MachineState) : Prop where
  silent : ∃ instruction, program.get? state.counter = some instruction ∧
    instruction.opcode ≠ .read
  unspent : Config.spentLimit? ⟨false, limit⟩ state.steps = none
  unshown : program.CannotShow state.counter

/-- The quiet machine comes to an instruction whose line only a verbose one would show, and cannot,
before so many steps are over. -/
def MeetsHidden (limit : Option UInt64) (program : Program) (count : Nat)
    (session : Session ι ω) : Prop :=
  ∃ earlier reached, earlier < count ∧
    steps ⟨false, limit⟩ program earlier session = .ok .running reached ∧
    Hides limit program reached.state

theorem Hides.exists_crashes {limit : Option UInt64} {program : Program} {state : MachineState}
    (h : Hides limit program state) : ∃ crash, Crashes ⟨true, limit⟩ program state crash := by
  obtain ⟨instruction, hFetched, _⟩ := h.silent
  exact ⟨_, ⟨instruction, hFetched, .inl rfl⟩, h.unspent,
    Program.line?_eq_error_iff.mpr ⟨h.unshown, rfl⟩⟩

theorem Crashes.cannotShow {config : Config} {program : Program} {state : MachineState}
    {crash : Crash} (h : Crashes config program state crash) :
    program.CannotShow state.counter :=
  (Program.line?_eq_error_iff.mp h.line).1

theorem not_crashes_of_labelWidth_le {config : Config} {program : Program} {state : MachineState}
    {crash : Crash} (h : program.labelWidth ≤ Instruction.maxFill) :
    ¬ Crashes config program state crash :=
  fun hCrashes => Program.showable_of_labelWidth_le h _ hCrashes.cannotShow

/-- On a `READ` the quiet machine crashes as the verbose one does. -/
theorem Crashes.quiet_or_hides {limit : Option UInt64} {program : Program} {state : MachineState}
    {crash : Crash} (h : Crashes ⟨true, limit⟩ program state crash) :
    Crashes ⟨false, limit⟩ program state crash ∨ Hides limit program state := by
  obtain ⟨instruction, hFetched, _⟩ := h.announces
  by_cases hRead : instruction.opcode = .read
  · exact .inl ⟨⟨instruction, hFetched, .inr hRead⟩, h.unspent, h.line⟩
  · exact .inr ⟨⟨instruction, hFetched, hRead⟩, h.unspent, h.cannotShow⟩

section Steps

variable {limit : Option UInt64} {program : Program} {count : Nat} {session : Session ι ω}

theorem MeetsHidden.of_record (h : MeetsHidden limit program count (record session)) :
    MeetsHidden limit program count session := by
  obtain ⟨earlier, reached, hEarlier, hReaches, hHides⟩ := h
  have hCopies := copies_steps ⟨false, limit⟩ program earlier session
  rw [hReaches] at hCopies
  generalize hPlain : steps ⟨false, limit⟩ program earlier session = plain at hCopies
  cases hCopies with
  | ok _ hCopy => exact ⟨earlier, _, hEarlier, hPlain, hCopy.state ▸ hHides⟩

theorem follows_steps (hNever : NeverFails session.output) (limit : Option UInt64)
    (program : Program) (count : Nat) :
    AlikeUnless (Shadows session.output) HasCrashed
      (steps ⟨false, limit⟩ program count (record session))
      (steps ⟨true, limit⟩ program count (record session)) :=
  ((tolerates_shadows hNever limit).steps program count).alike _ _ (shadows_record session)

/-- A verbose run that crashes while the quiet one does not has come to a line that the quiet one
does not show. -/
theorem shadows_steps (hNever : NeverFails session.output)
    (hShown : ¬ MeetsHidden limit program count session) :
    Alike (Shadows session.output) (steps ⟨false, limit⟩ program count (record session))
      (steps ⟨true, limit⟩ program count (record session)) := by
  have hUnless := follows_steps hNever limit program count
  generalize hVerbose : steps ⟨true, limit⟩ program count (record session) = verbose at hUnless ⊢
  cases hUnless with
  | alike hAlike => exact hAlike
  | lost hLost =>
    obtain ⟨crash, rfl⟩ := hLost
    obtain ⟨earlier, hEarlier, hReaches, hCrashes⟩ := steps_eq_crash_iff.mp hVerbose
    have hBefore := follows_steps hNever limit program earlier
    rw [hReaches] at hBefore
    generalize hQuiet : steps ⟨false, limit⟩ program earlier (record session) = quiet at hBefore
    cases hBefore with
    | alike hAlike =>
      cases hAlike with
      | @ok _ reached _ hShadows =>
        rw [← hShadows.state] at hCrashes
        rcases hCrashes.quiet_or_hides with hBoth | hHides
        · have hCrash : steps ⟨false, limit⟩ program count (record session) =
              .error (.crash crash) reached :=
            steps_eq_crash_iff.mpr ⟨earlier, hEarlier, hQuiet, hBoth⟩
          rw [hCrash]
          exact .error _ hShadows
        · exact absurd (MeetsHidden.of_record ⟨earlier, reached, hEarlier, hQuiet, hHides⟩) hShown

theorem agree_steps (hNever : NeverFails session.output)
    (hShown : ¬ MeetsHidden limit program count session) :
    Alike Agree (steps ⟨false, limit⟩ program count session)
      (steps ⟨true, limit⟩ program count session) ∧
    (written ⟨false, limit⟩ program count session).toList.Sublist
      (written ⟨true, limit⟩ program count session).toList := by
  have hShadows := shadows_steps hNever hShown
  refine ⟨?_, hShadows.final.sublist⟩
  exact agree_of_shadows hShadows (copies_steps _ program count session)
    (copies_steps _ program count session)

theorem crashed_or_agree (hNever : NeverFails session.output) (limit : Option UInt64)
    (program : Program) (count : Nat) :
    (∃ crash after, steps ⟨true, limit⟩ program count session = .error (.crash crash) after) ∨
      Alike Agree (steps ⟨false, limit⟩ program count session)
        (steps ⟨true, limit⟩ program count session) := by
  have hUnless := follows_steps hNever limit program count
  have hQuiet := copies_steps ⟨false, limit⟩ program count session
  have hVerbose := copies_steps ⟨true, limit⟩ program count session
  generalize steps ⟨true, limit⟩ program count (record session) = recorded,
    steps ⟨true, limit⟩ program count session = verbose at hUnless hVerbose ⊢
  cases hUnless with
  | alike hAlike => exact .inr (agree_of_shadows hAlike hQuiet hVerbose)
  | lost hLost =>
    obtain ⟨crash, rfl⟩ := hLost
    cases hVerbose with
    | error _ hCopy => exact .inl ⟨crash, _, rfl⟩

/-- The verbose run crashes at the line that the quiet one does not show, or earlier. -/
theorem MeetsHidden.exists_crash (hNever : NeverFails session.output)
    (h : MeetsHidden limit program count session) :
    ∃ crash after, steps ⟨true, limit⟩ program count session = .error (.crash crash) after := by
  obtain ⟨earlier, reached, hEarlier, hReaches, hHides⟩ := h
  rcases crashed_or_agree hNever limit program earlier with ⟨crash, after, hCrash⟩ | hAgree
  · exact ⟨crash, after, steps_of_le hCrash nofun (Nat.le_of_lt hEarlier)⟩
  · rw [hReaches] at hAgree
    generalize hVerbose : steps ⟨true, limit⟩ program earlier session = verbose at hAgree
    cases hAgree with
    | @ok _ _ after hSame =>
      obtain ⟨crash, hCrashes⟩ := hHides.exists_crashes
      rw [hSame.state] at hCrashes
      exact ⟨crash, after, steps_eq_crash_iff.mpr ⟨earlier, hEarlier, hVerbose, hCrashes⟩⟩

theorem agree_run {fuel : Nat} (hNever : NeverFails session.output)
    (hShown : ¬ MeetsHidden limit program fuel (restart session)) :
    Option.Rel (Alike Agree) (run fuel ⟨false, limit⟩ program session)
      (run fuel ⟨true, limit⟩ program session) := by
  have hStart : NeverFails (restart session).output := hNever
  have hShadows : Option.Rel (Alike (Shadows session.output))
      (run fuel ⟨false, limit⟩ program (record session))
      (run fuel ⟨true, limit⟩ program (record session)) :=
    Alike.run (fun _ _ h => h.state) (lockstep_flush hNever) (shadows_steps hStart hShown)
  have hQuiet := copies_run ⟨false, limit⟩ program fuel session
  have hVerbose := copies_run ⟨true, limit⟩ program fuel session
  generalize run fuel ⟨false, limit⟩ program (record session) = quiet,
    run fuel ⟨true, limit⟩ program (record session) = verbose,
    run fuel ⟨false, limit⟩ program session = left,
    run fuel ⟨true, limit⟩ program session = right at hShadows hQuiet hVerbose ⊢
  cases hShadows with
  | none =>
    cases hQuiet
    cases hVerbose
    exact .none
  | some hShadows =>
    cases hQuiet with
    | some hQuiet =>
      cases hVerbose with
      | some hVerbose => exact .some (agree_of_shadows hShadows hQuiet hVerbose)

end Steps

/-- A verbose run cannot show the only line of a program with a long label. -/
theorem run_longProgram {count fuel : Nat} (hLong : Instruction.maxFill < count + 3)
    (hFuel : 0 < fuel) {limit : Option UInt64}
    (hUnspent : Config.spentLimit? ⟨true, limit⟩ 0 = none) (session : Session ι ω) :
    run fuel ⟨true, limit⟩ (Program.longProgram count) session =
      some (.error (.crash ⟨count + 3⟩) (restart session)) :=
  run_eq_crash_iff.mpr ⟨0, hFuel, rfl, ⟨_, rfl, .inl rfl⟩, hUnspent,
    Program.line?_longProgram hLong⟩

theorem not_meetsHidden_of_showable {program : Program} (h : program.Showable)
    (limit : Option UInt64) (count : Nat) (session : Session ι ω) :
    ¬ MeetsHidden limit program count session := by
  rintro ⟨_, reached, _, _, hHides⟩
  exact h reached.state.counter hHides.unshown

/-- As long as the quiet run meets no line that cannot be shown and that only the verbose run has to
show, the two agree after every number of steps and at their end, if they have one, and what the
quiet run has written is a subsequence of what the verbose one has. Behind such a line the verbose
run has crashed. A program whose labels leave a column that can be filled has no such lines. -/
theorem verbosity_immaterial_unless_hidden (limit : Option UInt64) (program : Program)
    (session : Session ι ω) (hNever : NeverFails session.output) :
    (∀ count, ¬ MeetsHidden limit program count (restart session) →
      Alike Agree (steps ⟨false, limit⟩ program count (restart session))
        (steps ⟨true, limit⟩ program count (restart session)) ∧
      (written ⟨false, limit⟩ program count (restart session)).toList.Sublist
        (written ⟨true, limit⟩ program count (restart session)).toList) ∧
    (∀ fuel, ¬ MeetsHidden limit program fuel (restart session) → Option.Rel (Alike Agree)
      (run fuel ⟨false, limit⟩ program session) (run fuel ⟨true, limit⟩ program session)) ∧
    ((∀ count, ¬ MeetsHidden limit program count (restart session)) →
      ((∀ fuel, run fuel ⟨false, limit⟩ program session = none) ↔
        ∀ fuel, run fuel ⟨true, limit⟩ program session = none)) ∧
    (∀ count, MeetsHidden limit program count (restart session) → ∃ crash after,
      run count ⟨true, limit⟩ program session = some (.error (.crash crash) after)) ∧
    (program.labelWidth ≤ Instruction.maxFill →
      ∀ count, ¬ MeetsHidden limit program count (restart session)) := by
  have hStart : NeverFails (restart session).output := hNever
  refine ⟨fun count => agree_steps hStart, fun fuel => agree_run hNever, ?_, ?_, ?_⟩
  · intro hShown
    apply forall_congr'
    intro fuel
    have hRel := agree_run hNever (hShown fuel)
    generalize run fuel ⟨false, limit⟩ program session = quiet,
      run fuel ⟨true, limit⟩ program session = verbose at hRel ⊢
    cases hRel with
    | none => exact Iff.rfl
    | some => exact iff_of_false nofun nofun
  · intro count hMeets
    obtain ⟨crash, after, hCrash⟩ := hMeets.exists_crash hStart
    exact ⟨crash, after, run_eq_crash_iff.mpr (steps_eq_crash_iff.mp hCrash)⟩
  · intro hWidth count
    exact not_meetsHidden_of_showable (Program.showable_of_labelWidth_le hWidth) limit count _

/-- A program that reads a number and prints it. -/
def copyNumber : Program :=
  ⟨#[⟨"READ N", none, .read, some "N"⟩, ⟨"PRINT N", none, .print, some "N"⟩,
    ⟨"Q END", some "Q", .halt, none⟩], (∅ : SymbolTable).insert "Q" ⟨2, .code⟩, 4⟩

/-- A fresh machine with the number for it. -/
def copySession : Session Script Sink :=
  ⟨{}, ⟨["7"]⟩, {}⟩

theorem verbosity_immaterial_unless_hidden_copyNumber :
    NeverFails copySession.output ∧
      written ⟨false, none⟩ copyNumber 3 copySession = "1:     READ N 7\n\n" ∧
      written ⟨true, none⟩ copyNumber 3 copySession =
        "1:     READ N (N = 7)\n2:     PRINT N (N = 7)\n7\n3: Q   END \n" ∧
      (written ⟨false, none⟩ copyNumber 3 copySession).toList.Sublist
        (written ⟨true, none⟩ copyNumber 3 copySession).toList ∧
      ∃ quiet verbose, run 3 ⟨false, none⟩ copyNumber copySession = some quiet ∧
        run 3 ⟨true, none⟩ copyNumber copySession = some verbose ∧ Alike Agree quiet verbose := by
  have hNever : NeverFails copySession.output := Sink.neverFails ByteArray.empty
  obtain ⟨hSteps, hRun, _, _, hNarrow⟩ :=
    verbosity_immaterial_unless_hidden none copyNumber copySession hNever
  have hShown := hNarrow (by decide) 3
  obtain ⟨_, hSublist⟩ := hSteps 3 hShown
  refine ⟨hNever, rfl, rfl, hSublist, _, _, rfl, rfl, ?_⟩
  cases hRun 3 hShown with
  | some hAlike => exact hAlike

/-- A label of nearly as many bytes as the formatter fills makes a verbose run crash, and a quiet
one that executes the same instruction goes on. -/
theorem exists_crash_of_verbose_run :
    ∃ lines program, Program.ofLines lines = .ok program ∧
      NeverFails idleSession.output ∧
      (∃ after, run 2 ⟨false, none⟩ program idleSession = some (.ok ⟨1, .ranOffEnd⟩ after)) ∧
      run 2 ⟨true, none⟩ program idleSession =
        some (.error (.crash ⟨65536⟩) (restart idleSession)) := by
  have hQuiet : ∀ count, run 2 ⟨false, none⟩ (Program.longProgram count) idleSession =
      some (.ok ⟨1, .ranOffEnd⟩ _) := fun _ => rfl
  exact ⟨[Program.longLine 65533], _, Program.ofLines_longLine (by decide),
    Sink.neverFails ByteArray.empty, ⟨_, hQuiet 65533⟩,
    run_longProgram (by decide) (by decide) rfl idleSession⟩

end Accumulator.Execution
