import Accumulator.Proofs.Device.Transcript
import Accumulator.Proofs.Machine.Lockstep

/-! # Recorded runs

To record a session is to put its output device behind a recorder. The machine does not notice:
the recorded steps are those of the session itself, and the record tells what they have written.
-/

namespace Accumulator.Execution

set_option autoImplicit false

variable {ι ω : Type}

def record (session : Session ι ω) : Session ι (Recorder ω) :=
  ⟨session.state, session.input, session.output, ""⟩

structure Copies (recorded : Session ι (Recorder ω)) (plain : Session ι ω) : Prop where
  state : recorded.state = plain.state
  input : recorded.input = plain.input
  device : recorded.output.device = plain.output

theorem copies_record (session : Session ι ω) : Copies (record session) session :=
  ⟨rfl, rfl, rfl⟩

theorem lockstep_watch (keep : String → String) (action : EStateM String ω Unit) :
    Lockstep (Copies : Session ι (Recorder ω) → Session ι ω → Prop)
      (onOutput (Recorder.watch keep action)) (onOutput action) := by
  rintro ⟨state, input, device, text⟩ ⟨_, _, _⟩ ⟨hState, hInput, hDevice⟩
  cases hState
  cases hInput
  cases hDevice
  simp only [onOutput, Recorder.watch]
  cases action device with
  | ok _ next => exact .ok () ⟨rfl, rfl, rfl⟩
  | error message next => exact .error _ ⟨rfl, rfl, rfl⟩

variable [InputDevice ι] [OutputDevice ω]

theorem respects_copies :
    Respects (Copies : Session ι (Recorder ω) → Session ι ω → Prop) where
  state _ _ h := h.state
  change update _ _ h := .ok () ⟨congrArg update h.state, h.input, h.device⟩
  takeInput := lockstep_takeInput (fun _ _ h => h.input) fun _ _ _ h => ⟨h.state, rfl, h.device⟩
  emit _ := lockstep_watch _ _
  flush := lockstep_watch _ _

theorem copies_steps (config : Config) (program : Program) (count : Nat) (session : Session ι ω) :
    Alike Copies (steps config program count (record session))
      (steps config program count session) :=
  respects_copies.steps config program count _ _ (copies_record session)

theorem copies_run (config : Config) (program : Program) (fuel : Nat) (session : Session ι ω) :
    Option.Rel (Alike Copies) (run fuel config program (record session))
      (run fuel config program session) := by
  have hStart : Copies (restart (record session)) (restart session) :=
    copies_record (restart session)
  exact respects_copies.run hStart config program fuel

/-- The text that the output accepts in up to `count` steps. -/
def written (config : Config) (program : Program) (count : Nat) (session : Session ι ω) : String :=
  (final (steps config program count (record session))).output.text

/-! ## Outputs that never fail -/

section NeverFails

variable {start : ω}

omit [InputDevice ι] in
theorem emit_recorded (hNever : NeverFails start) {session : Session ι (Recorder ω)}
    (hReceived : Received start session.output.device session.output.text) (text : String) :
    ∃ next, emit text session =
        .ok () ⟨session.state, session.input, next, session.output.text ++ text⟩ ∧
      Received start next (session.output.text ++ text) := by
  obtain ⟨next, hWrite, hNext⟩ := hNever.write hReceived text
  exact ⟨next, emit_eq_ok_iff.mpr ⟨_, Recorder.write_of_ok hWrite, rfl⟩, hNext⟩

omit [InputDevice ι] in
theorem flush_recorded (hNever : NeverFails start) {session : Session ι (Recorder ω)}
    (hReceived : Received start session.output.device session.output.text) :
    ∃ next, onOutput OutputDevice.flush session =
        .ok () ⟨session.state, session.input, next, session.output.text⟩ ∧
      Received start next session.output.text := by
  obtain ⟨next, hFlush, hNext⟩ := hNever.flush hReceived
  exact ⟨next, onOutput_eq_ok_iff.mpr ⟨_, Recorder.flush_of_ok hFlush, rfl⟩, hNext⟩

/-- The record is a transcript of the output. -/
structure Transcribes (start : ω) (recorded : Session ι (Recorder ω)) (plain : Session ι ω) :
    Prop extends Copies recorded plain where
  received : Received start recorded.output.device recorded.output.text

omit [InputDevice ι] in
theorem lockstep_transcribes {action : Execution ι (Recorder ω) Unit} {plain : Execution ι ω Unit}
    (hCopies : Lockstep Copies action plain)
    (hReceives : ∀ session, Received start session.output.device session.output.text →
      Received start (final (action session)).output.device (final (action session)).output.text) :
    Lockstep (Transcribes start) action plain := by
  intro recorded session h
  have hAlike := hCopies recorded session h.toCopies
  have hReceived := hReceives recorded h.received
  generalize action recorded = left, plain session = right at hAlike hReceived ⊢
  cases hAlike with
  | ok value hNext => exact .ok value ⟨hNext, hReceived⟩
  | error failure hNext => exact .error failure ⟨hNext, hReceived⟩

omit [InputDevice ι] in
theorem transcribes_emit (hNever : NeverFails start) (text : String) :
    Lockstep (Transcribes start) (emit text : Execution ι (Recorder ω) Unit) (emit text) := by
  have hCopies : Lockstep Copies (emit text : Execution ι (Recorder ω) Unit) (emit text) :=
    lockstep_watch _ _
  apply lockstep_transcribes hCopies
  intro session hReceived
  obtain ⟨next, hEmit, hNext⟩ := emit_recorded hNever hReceived text
  rw [hEmit]
  exact hNext

omit [InputDevice ι] in
theorem transcribes_flush (hNever : NeverFails start) :
    Lockstep (Transcribes start)
      (onOutput OutputDevice.flush : Execution ι (Recorder ω) Unit)
      (onOutput OutputDevice.flush) := by
  have hCopies : Lockstep Copies (onOutput OutputDevice.flush : Execution ι (Recorder ω) Unit)
      (onOutput OutputDevice.flush) := lockstep_watch _ _
  apply lockstep_transcribes hCopies
  intro session hReceived
  obtain ⟨next, hFlush, hNext⟩ := flush_recorded hNever hReceived
  rw [hFlush]
  exact hNext

theorem respects_transcribes (hNever : NeverFails start) :
    Respects (Transcribes start : Session ι (Recorder ω) → Session ι ω → Prop) where
  state _ _ h := h.state
  change update _ _ h := .ok () ⟨⟨congrArg update h.state, h.input, h.device⟩, h.received⟩
  takeInput := lockstep_takeInput (fun _ _ h => h.input)
    fun _ _ _ h => ⟨⟨h.state, rfl, h.device⟩, h.received⟩
  emit text := transcribes_emit hNever text
  flush := transcribes_flush hNever

theorem received_written (config : Config) (program : Program) (count : Nat)
    {session : Session ι ω} (hNever : NeverFails session.output) :
    Received session.output (final (steps config program count session)).output
      (written config program count session) := by
  have hStart : Transcribes session.output (record session) session :=
    ⟨copies_record session, .start⟩
  have hReached := ((respects_transcribes hNever).steps config program count _ _ hStart).final
  have hDevice := hReached.device
  rw [← hDevice]
  exact hReached.received

theorem neverFails_of_steps {config : Config} {program : Program} {count : Nat}
    {session reached : Session ι ω} {outcome : StepOutcome} (hNever : NeverFails session.output)
    (h : steps config program count session = .ok outcome reached) :
    NeverFails reached.output := by
  have hReceived := received_written config program count hNever
  rw [h] at hReceived
  exact hNever.of_received hReceived

end NeverFails

end Accumulator.Execution
