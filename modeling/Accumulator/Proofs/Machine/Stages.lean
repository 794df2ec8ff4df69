import Accumulator.Machine.Step

/-! # The stages of a step

A step fetches its instruction, announces it, decides on an effect and carries it out. It crashes
only in the announcement. An effect that writes to the machine state does so before its echo; the
others leave the state alone. The lemmas below name every way through these stages, and later
modules argue from them without opening the definitions.
-/

namespace Accumulator.Execution

set_option autoImplicit false

variable {ι ω : Type}

/-- The session that a computation leaves behind, also when it fails. -/
def final {α : Type} : EStateM.Result Failure (Session ι ω) α → Session ι ω
  | .ok _ session => session
  | .error _ session => session

theorem bind_eq_ok_iff {α β : Type} {first : Execution ι ω α} {rest : α → Execution ι ω β}
    {session after : Session ι ω} {result : β} :
    (first >>= rest) session = .ok result after ↔
      ∃ value middle, first session = .ok value middle ∧ rest value middle = .ok result after := by
  change EStateM.bind first rest session = _ ↔ _
  cases hFirst : first session with
  | error failure middle => simp [EStateM.bind, hFirst]
  | ok value middle =>
    simp only [EStateM.bind, hFirst]
    constructor
    · intro h
      exact ⟨value, middle, rfl, h⟩
    · rintro ⟨_, _, hEq, h⟩
      cases hEq
      exact h

theorem bind_eq_error_iff {α β : Type} {first : Execution ι ω α} {rest : α → Execution ι ω β}
    {session after : Session ι ω} {failure : Failure} :
    (first >>= rest) session = .error failure after ↔
      first session = .error failure after ∨
        ∃ value middle,
          first session = .ok value middle ∧ rest value middle = .error failure after := by
  change EStateM.bind first rest session = _ ↔ _
  cases hFirst : first session with
  | error failure middle => simp [EStateM.bind, hFirst]
  | ok value middle =>
    simp only [EStateM.bind, hFirst]
    constructor
    · intro h
      exact .inr ⟨value, middle, rfl, h⟩
    · rintro (hEq | ⟨_, _, hEq, h⟩)
      · cases hEq
      · cases hEq
        exact h

theorem onOutput_eq_ok_iff {α : Type} {action : EStateM String ω α} {session after : Session ι ω}
    {value : α} :
    onOutput action session = .ok value after ↔
      ∃ output, action session.output = .ok value output ∧
        after = ⟨session.state, session.input, output⟩ := by
  obtain ⟨state, input, output⟩ := session
  simp only [onOutput]
  cases action output <;> grind

theorem onOutput_eq_error_iff {α : Type} {action : EStateM String ω α}
    {session after : Session ι ω} {failure : Failure} :
    onOutput action session = .error failure after ↔
      ∃ message output, action session.output = .error message output ∧
        failure = .fault (.device message) ∧ after = ⟨session.state, session.input, output⟩ := by
  obtain ⟨state, input, output⟩ := session
  simp only [onOutput]
  cases action output <;> grind

theorem takeInput_eq_ok_iff [InputDevice ι] {site : Site} {session after : Session ι ω}
    {value : Word} :
    takeInput site session = .ok value after ↔
      ∃ input, InputDevice.read session.input = .ok value input ∧
        after = ⟨session.state, input, session.output⟩ := by
  obtain ⟨state, input, output⟩ := session
  simp only [takeInput]
  cases InputDevice.read input <;> grind

theorem takeInput_eq_error_iff [InputDevice ι] {site : Site} {session after : Session ι ω}
    {failure : Failure} :
    takeInput site session = .error failure after ↔
      ∃ cause input, InputDevice.read session.input = .error cause input ∧
        failure = .fault (inputFault site cause) ∧
        after = ⟨session.state, input, session.output⟩ := by
  obtain ⟨state, input, output⟩ := session
  simp only [takeInput]
  cases InputDevice.read input <;> grind

theorem require_eq_ok_iff {ε α : Type} {failure : ε → Failure} {computed : Except ε α}
    {session after : Session ι ω} {value : α} :
    require failure computed session = .ok value after ↔
      computed = .ok value ∧ after = session := by
  cases computed with
  | error cause => exact iff_of_false nofun nofun
  | ok found =>
    constructor
    · intro h
      cases h
      exact ⟨rfl, rfl⟩
    · rintro ⟨hFound, rfl⟩
      cases hFound
      rfl

theorem require_eq_error_iff {ε α : Type} {failure : ε → Failure} {computed : Except ε α}
    {session after : Session ι ω} {found : Failure} :
    require failure computed session = .error found after ↔
      ∃ cause, computed = .error cause ∧ found = failure cause ∧ after = session := by
  cases computed with
  | ok value => exact iff_of_false nofun nofun
  | error cause =>
    constructor
    · intro h
      cases h
      exact ⟨cause, rfl, rfl, rfl⟩
    · rintro ⟨_, hCause, rfl, rfl⟩
      cases hCause
      rfl

section Output

variable [OutputDevice ω]

theorem emit_eq_ok_iff {text : String} {session after : Session ι ω} :
    emit text session = .ok () after ↔
      ∃ output, OutputDevice.write text session.output = .ok () output ∧
        after = ⟨session.state, session.input, output⟩ :=
  onOutput_eq_ok_iff

theorem emit_eq_error_iff {text : String} {session after : Session ι ω} {failure : Failure} :
    emit text session = .error failure after ↔
      ∃ message output, OutputDevice.write text session.output = .error message output ∧
        failure = .fault (.device message) ∧ after = ⟨session.state, session.input, output⟩ :=
  onOutput_eq_error_iff

theorem echo_ok {config : Config} {text : String} {session after : Session ι ω}
    (h : echo config text session = .ok () after) :
    ∃ output, after = ⟨session.state, session.input, output⟩ := by
  unfold echo traced at h
  split at h
  · obtain ⟨output, _, hAfter⟩ := emit_eq_ok_iff.mp h
    exact ⟨output, hAfter⟩
  · cases h
    exact ⟨session.output, rfl⟩

theorem echo_eq_error_iff {config : Config} {text : String} {session after : Session ι ω}
    {failure : Failure} :
    echo config text session = .error failure after ↔
      config.verbose = true ∧ ∃ message output,
        OutputDevice.write text session.output = .error message output ∧
          failure = .fault (.device message) ∧ after = ⟨session.state, session.input, output⟩ := by
  unfold echo traced
  split
  · rename_i hVerbose
    rw [emit_eq_error_iff]
    exact (and_iff_right hVerbose).symm
  · rename_i hQuiet
    constructor
    · intro h
      cases h
    · exact fun h => absurd h.1 hQuiet

theorem showLine_eq_ok_iff {program : Program} {index : Nat} {session after : Session ι ω} :
    showLine program index session = .ok () after ↔
      ∃ line, program.line? index = .ok line ∧ ∃ output,
        OutputDevice.write (line.getD "" ++ " ") session.output = .ok () output ∧
          after = ⟨session.state, session.input, output⟩ := by
  rw [showLine, bind_eq_ok_iff]
  constructor
  · rintro ⟨line, shown, hLine, hEmit⟩
    obtain ⟨hFound, rfl⟩ := require_eq_ok_iff.mp hLine
    exact ⟨line, hFound, emit_eq_ok_iff.mp hEmit⟩
  · rintro ⟨line, hFound, hEmit⟩
    exact ⟨line, session, require_eq_ok_iff.mpr ⟨hFound, rfl⟩, emit_eq_ok_iff.mpr hEmit⟩

/-- A line is not shown if the output refuses it, or if it cannot be shown at all. -/
theorem showLine_eq_error_iff {program : Program} {index : Nat} {session after : Session ι ω}
    {failure : Failure} :
    showLine program index session = .error failure after ↔
      (∃ line, program.line? index = .ok line ∧ ∃ message output,
        OutputDevice.write (line.getD "" ++ " ") session.output = .error message output ∧
          failure = .fault (.device message) ∧ after = ⟨session.state, session.input, output⟩) ∨
      ∃ crash, program.line? index = .error crash ∧ failure = .crash crash ∧ after = session := by
  rw [showLine, bind_eq_error_iff, require_eq_error_iff, or_comm]
  apply or_congr_left
  constructor
  · rintro ⟨line, shown, hLine, hEmit⟩
    obtain ⟨hFound, rfl⟩ := require_eq_ok_iff.mp hLine
    exact ⟨line, hFound, emit_eq_error_iff.mp hEmit⟩
  · rintro ⟨line, hFound, hEmit⟩
    exact ⟨line, session, require_eq_ok_iff.mpr ⟨hFound, rfl⟩, emit_eq_error_iff.mpr hEmit⟩

theorem announce_ok {config : Config} {program : Program} {instruction : Instruction}
    {index : Nat} {session after : Session ι ω}
    (h : announce config program instruction index session = .ok () after) :
    ∃ output, after = ⟨session.state, session.input, output⟩ := by
  unfold announce at h
  split at h
  · obtain ⟨_, _, output, _, hAfter⟩ := showLine_eq_ok_iff.mp h
    exact ⟨output, hAfter⟩
  · cases h
    exact ⟨session.output, rfl⟩

/-- An announcement fails for its output, or because the line cannot be shown. -/
theorem announce_error {config : Config} {program : Program} {instruction : Instruction}
    {index : Nat} {session after : Session ι ω} {failure : Failure}
    (h : announce config program instruction index session = .error failure after) :
    (∃ message output, failure = .fault (.device message) ∧
      after = ⟨session.state, session.input, output⟩) ∨
    ∃ crash, failure = .crash crash ∧ after = session ∧
      (config.verbose = true ∨ instruction.opcode = .read) ∧
      program.line? index = .error crash := by
  unfold announce at h
  split at h
  · rename_i hAnnounces
    rcases showLine_eq_error_iff.mp h with
      ⟨_, _, message, output, _, hFault, hAfter⟩ | ⟨crash, hCrash, hFailure, hAfter⟩
    · exact .inl ⟨message, output, hFault, hAfter⟩
    · exact .inr ⟨crash, hFailure, hAfter, hAnnounces, hCrash⟩
  · cases h

theorem announce_eq_crash {config : Config} {program : Program} {instruction : Instruction}
    {index : Nat} {session : Session ι ω} {crash : Crash}
    (hAnnounces : config.verbose = true ∨ instruction.opcode = .read)
    (hLine : program.line? index = .error crash) :
    announce config program instruction index session = .error (.crash crash) session := by
  unfold announce
  rw [if_pos hAnnounces]
  exact showLine_eq_error_iff.mpr (.inr ⟨crash, hLine, rfl, rfl⟩)

end Output

theorem jump_ok {program : Program} {label : String} {index target : Nat}
    {session after : Session ι ω}
    (h : require .fault (jumpIndex program label index) session = .ok target after) :
    program.jumpTarget? label = some target ∧ after = session := by
  obtain ⟨hIndex, rfl⟩ := require_eq_ok_iff.mp h
  unfold jumpIndex at hIndex
  split at hIndex
  · rename_i hTarget
    cases hIndex
    exact ⟨hTarget, rfl⟩
  · cases hIndex

theorem jump_error {program : Program} {label : String} {index : Nat} {failure : Failure}
    {session after : Session ι ω}
    (h : require .fault (jumpIndex program label index) session = .error failure after) :
    program.jumpTarget? label = none ∧ failure = .fault (.undefinedBranch label index) ∧
      after = session := by
  obtain ⟨fault, hIndex, rfl, rfl⟩ := require_eq_error_iff.mp h
  unfold jumpIndex at hIndex
  split at hIndex
  · cases hIndex
  · rename_i hTarget
    cases hIndex
    exact ⟨hTarget, rfl, rfl⟩

/-! ## Effects -/

section Effects

variable [InputDevice ι] [OutputDevice ω]

/-- An effect that writes to the machine state has done so, and is about to echo the line. -/
inductive Commits : Effect → Session ι ω → Session ι ω → String → Prop
  | compute (value : Word) (session : Session ι ω) :
      Commits (.compute value) session
        ⟨session.state.setAccumulator value, session.input, session.output⟩
        ("(ACC = " ++ Decimal.ofWord value ++ ")\n")
  | store (name : String) (value : Word) (session : Session ι ω) :
      Commits (.store name value) session
        ⟨session.state.setVariable name value, session.input, session.output⟩
        ("(" ++ name ++ " = " ++ Decimal.ofWord value ++ ")\n")
  | read (name : String) (session : Session ι ω) {value : Word} {input : ι} {output : ω}
      (hFlush : OutputDevice.flush session.output = .ok () output)
      (hRead : InputDevice.read session.input = .ok value input) :
      Commits (.read name) session
        ⟨session.state.setVariable name (Word.reduce value), input, output⟩
        ("(" ++ name ++ " = " ++ Decimal.ofWord (Word.reduce value) ++ ")\n")

/-- An effect that writes nothing leads to the next instruction. -/
inductive Proceeds (program : Program) (index : Nat) : Effect → Option Nat → Prop
  | print (operand : String) (value : Word) :
      Proceeds program index (.print operand value) (some (index + 1))
  | pass (label : String) : Proceeds program index (.branch false label) (some (index + 1))
  | jump {label : String} {target : Nat} (hTarget : program.jumpTarget? label = some target) :
      Proceeds program index (.branch true label) (some target)
  | halt : Proceeds program index .halt none

/-- An effect fails before it has written anything; the inputs are those before and after. -/
inductive Refuses (program : Program) (site : Site) : Effect → ι → Fault → ι → Prop
  | output (effect : Effect) (input : ι) (message : String) :
      Refuses program site effect input (.device message) input
  | input (name : String) {input rest : ι} {cause : InputFault}
      (hRead : InputDevice.read input = .error cause rest) :
      Refuses program site (.read name) input (inputFault site cause) rest
  | jump {label : String} (input : ι) (hTarget : program.jumpTarget? label = none) :
      Refuses program site (.branch true label) input (.undefinedBranch label site.index) input

theorem Commits.counter_eq_and_steps_eq {effect : Effect} {session committed : Session ι ω}
    {line : String} (h : Commits effect session committed line) :
    committed.state.counter = session.state.counter ∧
      committed.state.steps = session.state.steps := by
  cases h <;> exact ⟨rfl, rfl⟩

/-- Behind its write an effect has only the echo left to do. -/
theorem perform_of_commits (config : Config) (program : Program) (site : Site) {effect : Effect}
    {session committed : Session ι ω} {line : String}
    (h : Commits effect session committed line) :
    perform config program site effect session =
      (echo config line >>= fun _ => pure (some (site.index + 1))) committed := by
  cases h with
  | compute value => rfl
  | store name value => rfl
  | @read name _ value input output hFlush hRead =>
    have hFlushed : onOutput OutputDevice.flush session =
        .ok () ⟨session.state, session.input, output⟩ :=
      onOutput_eq_ok_iff.mpr ⟨output, hFlush, rfl⟩
    have hTaken : takeInput site ⟨session.state, session.input, output⟩ =
        .ok value ⟨session.state, input, output⟩ :=
      takeInput_eq_ok_iff.mpr ⟨input, hRead, rfl⟩
    simp only [perform, bind, EStateM.bind, hFlushed, hTaken]
    rfl

theorem perform_ok_of_commits {config : Config} {program : Program} {site : Site}
    {effect : Effect} {session committed after : Session ι ω} {line : String} {next : Option Nat}
    (hCommits : Commits effect session committed line)
    (h : perform config program site effect session = .ok next after) :
    next = some (site.index + 1) ∧
      ∃ output, after = ⟨committed.state, committed.input, output⟩ := by
  rw [perform_of_commits config program site hCommits] at h
  obtain ⟨_, echoed, hEcho, hNext⟩ := bind_eq_ok_iff.mp h
  obtain ⟨output, rfl⟩ := echo_ok hEcho
  cases hNext
  exact ⟨rfl, output, rfl⟩

theorem perform_eq_error_iff_of_commits {config : Config} {program : Program} {site : Site}
    {effect : Effect} {session committed after : Session ι ω} {line : String} {failure : Failure}
    (hCommits : Commits effect session committed line) :
    perform config program site effect session = .error failure after ↔
      config.verbose = true ∧ ∃ message output,
        OutputDevice.write line committed.output = .error message output ∧
          failure = .fault (.device message) ∧
          after = ⟨committed.state, committed.input, output⟩ := by
  rw [perform_of_commits config program site hCommits, bind_eq_error_iff, echo_eq_error_iff]
  constructor
  · rintro (hEcho | ⟨_, _, _, hNext⟩)
    · exact hEcho
    · cases hNext
  · exact .inl

/-- An effect that succeeds has either written and gone on, or written nothing. -/
theorem perform_ok {config : Config} {program : Program} {site : Site} {effect : Effect}
    {session after : Session ι ω} {next : Option Nat}
    (h : perform config program site effect session = .ok next after) :
    (∃ committed line output, Commits effect session committed line ∧
      next = some (site.index + 1) ∧ after = ⟨committed.state, committed.input, output⟩) ∨
    (Proceeds program site.index effect next ∧
      ∃ output, after = ⟨session.state, session.input, output⟩) := by
  cases effect with
  | compute value =>
    obtain ⟨hNext, output, hAfter⟩ := perform_ok_of_commits (.compute value session) h
    exact .inl ⟨_, _, output, .compute value session, hNext, hAfter⟩
  | store name value =>
    obtain ⟨hNext, output, hAfter⟩ := perform_ok_of_commits (.store name value session) h
    exact .inl ⟨_, _, output, .store name value session, hNext, hAfter⟩
  | read name =>
    obtain ⟨_, flushed, hFlushed, hRest⟩ := bind_eq_ok_iff.mp h
    obtain ⟨_, hFlush, rfl⟩ := onOutput_eq_ok_iff.mp hFlushed
    obtain ⟨value, taken, hTaken, _⟩ := bind_eq_ok_iff.mp hRest
    obtain ⟨_, hRead, rfl⟩ := takeInput_eq_ok_iff.mp hTaken
    obtain ⟨hNext, output, hAfter⟩ := perform_ok_of_commits (.read name session hFlush hRead) h
    exact .inl ⟨_, _, output, .read name session hFlush hRead, hNext, hAfter⟩
  | print operand value =>
    obtain ⟨_, echoed, hEcho, hRest⟩ := bind_eq_ok_iff.mp h
    obtain ⟨_, rfl⟩ := echo_ok hEcho
    obtain ⟨_, emitted, hEmit, hNext⟩ := bind_eq_ok_iff.mp hRest
    obtain ⟨output, _, rfl⟩ := emit_eq_ok_iff.mp hEmit
    cases hNext
    exact .inr ⟨.print operand value, output, rfl⟩
  | branch taken label =>
    obtain ⟨_, echoed, hEcho, hRest⟩ := bind_eq_ok_iff.mp h
    obtain ⟨output, rfl⟩ := echo_ok hEcho
    cases taken with
    | false =>
      cases hRest
      exact .inr ⟨.pass label, output, rfl⟩
    | true =>
      obtain ⟨target, jumped, hJump, hNext⟩ := bind_eq_ok_iff.mp hRest
      obtain ⟨hTarget, rfl⟩ := jump_ok hJump
      cases hNext
      exact .inr ⟨.jump hTarget, output, rfl⟩
  | halt =>
    obtain ⟨_, emitted, hEmit, hNext⟩ := bind_eq_ok_iff.mp h
    obtain ⟨output, _, rfl⟩ := emit_eq_ok_iff.mp hEmit
    cases hNext
    exact .inr ⟨.halt, output, rfl⟩

/-- An effect that fails has either written and lost its echo, or written nothing. -/
theorem perform_error {config : Config} {program : Program} {site : Site} {effect : Effect}
    {session after : Session ι ω} {failure : Failure}
    (h : perform config program site effect session = .error failure after) :
    (∃ committed line message output, Commits effect session committed line ∧
      config.verbose = true ∧ OutputDevice.write line committed.output = .error message output ∧
      failure = .fault (.device message) ∧
      after = ⟨committed.state, committed.input, output⟩) ∨
    (∃ fault, failure = .fault fault ∧
      Refuses program site effect session.input fault after.input ∧
      after.state = session.state) := by
  have hWrite : ∀ {committed : Session ι ω} {line : String},
      Commits effect session committed line → ∃ committed line message output,
        Commits effect session committed line ∧ config.verbose = true ∧
        OutputDevice.write line committed.output = .error message output ∧
        failure = .fault (.device message) ∧
        after = ⟨committed.state, committed.input, output⟩ := by
    intro committed line hCommits
    obtain ⟨hVerbose, message, output, hRest⟩ := (perform_eq_error_iff_of_commits hCommits).mp h
    exact ⟨committed, line, message, output, hCommits, hVerbose, hRest⟩
  cases effect with
  | compute value => exact .inl (hWrite (.compute value session))
  | store name value => exact .inl (hWrite (.store name value session))
  | read name =>
    rcases bind_eq_error_iff.mp h with hFlushed | ⟨_, flushed, hFlushed, hRest⟩
    · obtain ⟨message, _, _, rfl, rfl⟩ := onOutput_eq_error_iff.mp hFlushed
      exact .inr ⟨_, rfl, .output _ _ message, rfl⟩
    · obtain ⟨_, hFlush, rfl⟩ := onOutput_eq_ok_iff.mp hFlushed
      rcases bind_eq_error_iff.mp hRest with hTaken | ⟨value, taken, hTaken, _⟩
      · obtain ⟨cause, _, hRead, rfl, rfl⟩ := takeInput_eq_error_iff.mp hTaken
        exact .inr ⟨_, rfl, .input name hRead, rfl⟩
      · obtain ⟨_, hRead, rfl⟩ := takeInput_eq_ok_iff.mp hTaken
        exact .inl (hWrite (.read name session hFlush hRead))
  | print operand value =>
    rcases bind_eq_error_iff.mp h with hEcho | ⟨_, echoed, hEcho, hRest⟩
    · obtain ⟨_, message, _, _, rfl, rfl⟩ := echo_eq_error_iff.mp hEcho
      exact .inr ⟨_, rfl, .output _ _ message, rfl⟩
    · obtain ⟨_, rfl⟩ := echo_ok hEcho
      rcases bind_eq_error_iff.mp hRest with hEmit | ⟨_, _, _, hNext⟩
      · obtain ⟨message, _, _, rfl, rfl⟩ := emit_eq_error_iff.mp hEmit
        exact .inr ⟨_, rfl, .output _ _ message, rfl⟩
      · cases hNext
  | branch taken label =>
    rcases bind_eq_error_iff.mp h with hEcho | ⟨_, echoed, hEcho, hRest⟩
    · obtain ⟨_, message, _, _, rfl, rfl⟩ := echo_eq_error_iff.mp hEcho
      exact .inr ⟨_, rfl, .output _ _ message, rfl⟩
    · obtain ⟨_, rfl⟩ := echo_ok hEcho
      cases taken with
      | false => cases hRest
      | true =>
        rcases bind_eq_error_iff.mp hRest with hJump | ⟨_, _, _, hNext⟩
        · obtain ⟨hTarget, rfl, rfl⟩ := jump_error hJump
          exact .inr ⟨_, rfl, .jump _ hTarget, rfl⟩
        · cases hNext
  | halt =>
    rcases bind_eq_error_iff.mp h with hEmit | ⟨_, _, _, hNext⟩
    · obtain ⟨message, _, _, rfl, rfl⟩ := emit_eq_error_iff.mp hEmit
      exact .inr ⟨_, rfl, .output _ _ message, rfl⟩
    · cases hNext

end Effects

/-! ## Steps -/

section Steps

variable [OutputDevice ω]

/-- A step has fetched and announced its instruction and knows its effect. -/
structure Issues (config : Config) (program : Program) (session : Session ι ω)
    (instruction : Instruction) (effect : Effect) (announced : Session ι ω) : Prop where
  fetched : program.get? session.state.counter = some instruction
  unspent : config.spentLimit? session.state.steps = none
  shown : announce config program instruction session.state.counter session = .ok () announced
  decided : session.state.effect instruction session.state.counter = .ok effect

theorem Issues.announced_eq {config : Config} {program : Program} {session : Session ι ω}
    {instruction : Instruction} {effect : Effect} {announced : Session ι ω}
    (h : Issues config program session instruction effect announced) :
    ∃ output, announced = ⟨session.state, session.input, output⟩ :=
  announce_ok h.shown

/-- The machine has to announce the instruction at its counter, whose line cannot be shown. -/
structure Crashes (config : Config) (program : Program) (state : MachineState) (crash : Crash) :
    Prop where
  announces : ∃ instruction, program.get? state.counter = some instruction ∧
    (config.verbose = true ∨ instruction.opcode = .read)
  unspent : config.spentLimit? state.steps = none
  line : program.line? state.counter = .error crash

variable [InputDevice ι]

/-- Every way in which a step succeeds. -/
inductive Retires (config : Config) (program : Program) (session : Session ι ω) :
    StepOutcome → Session ι ω → Prop
  | ranOff (hEnd : program.get? session.state.counter = none) :
      Retires config program session (.finished .ranOffEnd) session
  | write {instruction : Instruction} {effect : Effect} {announced committed : Session ι ω}
      {line : String} (hIssues : Issues config program session instruction effect announced)
      (hCommits : Commits effect announced committed line) (output : ω) :
      Retires config program session .running
        ⟨committed.state.retire.setCounter (session.state.counter + 1), committed.input, output⟩
  | proceed {instruction : Instruction} {effect : Effect} {announced : Session ι ω} {next : Nat}
      (hIssues : Issues config program session instruction effect announced)
      (hProceeds : Proceeds program session.state.counter effect (some next)) (output : ω) :
      Retires config program session .running
        ⟨session.state.retire.setCounter next, session.input, output⟩
  | halt {instruction : Instruction} {announced : Session ι ω}
      (hIssues : Issues config program session instruction .halt announced) (output : ω) :
      Retires config program session (.finished .halted)
        ⟨session.state.retire, session.input, output⟩

/-- Every way in which a step fails. Only a lost echo leaves another machine state. -/
inductive Fails (config : Config) (program : Program) (session : Session ι ω) :
    Failure → Session ι ω → Prop
  | limit {instruction : Instruction} {limit : UInt64}
      (hFetched : program.get? session.state.counter = some instruction)
      (hSpent : config.spentLimit? session.state.steps = some limit) :
      Fails config program session
        (.fault (.stepLimitExceeded limit (instruction.site session.state.counter))) session
  | crash {crash : Crash} (hCrashes : Crashes config program session.state crash) :
      Fails config program session (.crash crash) session
  | announcement (message : String) (output : ω) :
      Fails config program session (.fault (.device message))
        ⟨session.state, session.input, output⟩
  | evaluation {instruction : Instruction} {fault : Fault}
      (hFetched : program.get? session.state.counter = some instruction)
      (hEffect : session.state.effect instruction session.state.counter = .error fault)
      (output : ω) :
      Fails config program session (.fault fault) ⟨session.state, session.input, output⟩
  | refusal {instruction : Instruction} {effect : Effect} {announced : Session ι ω}
      {fault : Fault} {input : ι}
      (hIssues : Issues config program session instruction effect announced)
      (hRefuses : Refuses program (instruction.site session.state.counter) effect session.input
        fault input) (output : ω) :
      Fails config program session (.fault fault) ⟨session.state, input, output⟩
  | echo {instruction : Instruction} {effect : Effect} {announced committed : Session ι ω}
      {line message : String} {output : ω}
      (hIssues : Issues config program session instruction effect announced)
      (hCommits : Commits effect announced committed line) (hVerbose : config.verbose = true)
      (hWrite : OutputDevice.write line committed.output = .error message output) :
      Fails config program session (.fault (.device message))
        ⟨committed.state, committed.input, output⟩

variable {config : Config} {program : Program} {session after : Session ι ω}

theorem step_of_issues {instruction : Instruction} {effect : Effect} {announced : Session ι ω}
    (h : Issues config program session instruction effect announced) :
    step config program session =
      (perform config program (instruction.site session.state.counter) effect >>= advance)
        announced := by
  rw [step_eq, h.fetched]
  simp only [h.unspent, h.shown, h.decided, bind, EStateM.bind]
  cases perform config program (instruction.site session.state.counter) effect announced <;> rfl

/-- A step that does not come to its effect runs off the end or fails on the way. -/
theorem step_stages (config : Config) (program : Program) (session : Session ι ω) :
    (program.get? session.state.counter = none ∧
      step config program session = .ok (.finished .ranOffEnd) session) ∨
    (∃ failure after, step config program session = .error failure after ∧
      Fails config program session failure after) ∨
    ∃ instruction effect announced,
      Issues config program session instruction effect announced := by
  rw [step_eq]
  split
  · rename_i hEnd
    exact .inl ⟨hEnd, rfl⟩
  · rename_i instruction hFetched
    right
    split
    · rename_i limit hSpent
      exact .inl ⟨_, _, rfl, .limit hFetched hSpent⟩
    · rename_i hUnspent
      split
      · rename_i hShown
        rcases announce_error hShown with
          ⟨message, output, rfl, rfl⟩ | ⟨crash, rfl, rfl, hAnnounces, hLine⟩
        · exact .inl ⟨_, _, rfl, .announcement message output⟩
        · exact .inl ⟨_, _, rfl, .crash ⟨⟨instruction, hFetched, hAnnounces⟩, hUnspent, hLine⟩⟩
      · rename_i announced hShown
        split
        · rename_i hEffect
          obtain ⟨output, rfl⟩ := announce_ok hShown
          exact .inl ⟨_, _, rfl, .evaluation hFetched hEffect output⟩
        · rename_i effect hDecided
          exact .inr ⟨instruction, effect, announced, hFetched, hUnspent, hShown, hDecided⟩

theorem step_ok {outcome : StepOutcome} (h : step config program session = .ok outcome after) :
    Retires config program session outcome after := by
  rcases step_stages config program session with
    ⟨hEnd, hStep⟩ | ⟨_, _, hStep, _⟩ | ⟨instruction, effect, announced, hIssues⟩
  · rw [hStep] at h
    cases h
    exact .ranOff hEnd
  · rw [hStep] at h
    cases h
  · rw [step_of_issues hIssues] at h
    obtain ⟨next, performed, hPerform, hAdvance⟩ := bind_eq_ok_iff.mp h
    obtain ⟨_, rfl⟩ := hIssues.announced_eq
    rcases perform_ok hPerform with
      ⟨committed, line, output, hCommits, rfl, rfl⟩ | ⟨hProceeds, output, rfl⟩
    · cases hAdvance
      exact .write hIssues hCommits output
    · cases next with
      | some index =>
        cases hAdvance
        exact .proceed hIssues hProceeds output
      | none =>
        cases hAdvance
        cases hProceeds
        exact .halt hIssues output

theorem step_error {failure : Failure} (h : step config program session = .error failure after) :
    Fails config program session failure after := by
  rcases step_stages config program session with
    ⟨_, hStep⟩ | ⟨_, _, hStep, hFails⟩ | ⟨instruction, effect, announced, hIssues⟩
  · rw [hStep] at h
    cases h
  · rw [hStep] at h
    cases h
    exact hFails
  · rw [step_of_issues hIssues] at h
    obtain ⟨_, rfl⟩ := hIssues.announced_eq
    rcases bind_eq_error_iff.mp h with hPerform | ⟨next, _, _, hAdvance⟩
    · rcases perform_error hPerform with
        ⟨committed, line, message, output, hCommits, hVerbose, hWrite, rfl, rfl⟩ |
        ⟨fault, rfl, hRefuses, hState⟩
      · exact .echo hIssues hCommits hVerbose hWrite
      · obtain ⟨state, input, output⟩ := after
        cases hState
        exact .refusal hIssues hRefuses output
    · cases next <;> cases hAdvance

/-- A step crashes exactly in its announcement, and leaves everything as it was. -/
theorem step_eq_crash_iff {crash : Crash} :
    step config program session = .error (.crash crash) after ↔
      Crashes config program session.state crash ∧ after = session := by
  constructor
  · intro h
    cases step_error h with
    | crash hCrashes => exact ⟨hCrashes, rfl⟩
  · rintro ⟨⟨⟨instruction, hFetched, hAnnounces⟩, hUnspent, hLine⟩, rfl⟩
    rw [step_eq, hFetched]
    simp only [hUnspent, announce_eq_crash hAnnounces hLine]

theorem Fails.counter_eq_and_steps_eq {failure : Failure}
    (h : Fails config program session failure after) :
    after.state.counter = session.state.counter ∧ after.state.steps = session.state.steps := by
  cases h with
  | limit | crash | announcement | evaluation | refusal => exact ⟨rfl, rfl⟩
  | echo hIssues hCommits =>
    obtain ⟨_, rfl⟩ := hIssues.announced_eq
    exact hCommits.counter_eq_and_steps_eq

end Steps

end Accumulator.Execution
