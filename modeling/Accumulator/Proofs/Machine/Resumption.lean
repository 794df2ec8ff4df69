import Accumulator.Proofs.Machine.Decisions
import Accumulator.Proofs.Machine.Verbosity

/-! # Resuming after a failed output

A quiet step works on its output before it takes a word of input or changes the machine state. If
the output refuses, the step can be tried again with another one: after any such refusals the
machine and its input are where they would be without them.
-/

namespace Accumulator

set_option autoImplicit false

theorem Script.read_ne_stream (script rest : Script) (message : String) :
    InputDevice.read script ≠ .error (.stream message) rest := by
  intro h
  rcases Script.read_error h with ⟨hCause, _⟩ | ⟨_, hCause, _⟩
  · cases hCause
  · cases hCause

namespace Execution

section Refusals

variable {ω : Type} [OutputDevice ω] {program : Program} {limit : Option UInt64}

theorem Refuses.eq_of_device {site : Site} {effect : Effect} {script rest : Script}
    {message : String} (h : Refuses program site effect script (.device message) rest) :
    rest = script := by
  generalize hFault : Fault.device message = fault at h
  cases h with
  | output => rfl
  | @input name _ _ cause hRead =>
    cases cause with
    | stream text => exact absurd hRead (script.read_ne_stream rest text)
    | exhausted | invalid => cases hFault
  | jump => rfl

theorem unchanged_of_refusal {session after : Session Script ω} {message : String}
    (h : step ⟨false, limit⟩ program session = .error (.fault (.device message)) after) :
    after.state = session.state ∧ after.input = session.input := by
  cases step_error h with
  | announcement => exact ⟨rfl, rfl⟩
  | evaluation _ hEffect =>
    have hSite := MachineState.site?_of_effect_error hEffect
    cases hSite
  | refusal _ hRefuses => exact ⟨rfl, hRefuses.eq_of_device⟩
  | echo _ _ hVerbose => cases hVerbose

end Refusals

/-! ## The same step on another output -/

section Outputs

variable {ι ω χ : Type} {start : ω} {other : χ}

/-- The outputs have taken the same text since their starts, and all else is the same. -/
structure Parallel [OutputDevice ω] [OutputDevice χ] (start : ω) (other : χ)
    (left : Session ι ω) (right : Session ι χ) : Prop where
  state : left.state = right.state
  input : left.input = right.input
  received : ∃ text, Received start left.output text ∧ Received other right.output text

/-- The failure is one of the output, which can fail. -/
structure Refused [OutputDevice χ] (other : χ) (failure : Failure) : Prop where
  failure : ∃ message, failure = .fault (.device message)
  output : ¬ NeverFails other

variable [OutputDevice ω] [OutputDevice χ]

theorem follows_onOutput (hNever : NeverFails start) {first : EStateM String ω Unit}
    {second : EStateM String χ Unit} {more : String} (hFirst : Passes start first more)
    (hSecond : Passes other second more) :
    Follows (Parallel start other : Session ι ω → Session ι χ → Prop)
      (fun _ failure _ => Refused other failure) (onOutput first) (onOutput second) where
  alike left right h := by
    obtain ⟨text, hLeft, hRight⟩ := h.received
    obtain ⟨next, hNext⟩ := hFirst.works hNever _ _ hLeft
    rw [onOutput_eq_ok_iff.mpr ⟨next, hNext, rfl⟩]
    cases hOther : second right.output with
    | ok _ later =>
      rw [onOutput_eq_ok_iff.mpr ⟨later, hOther, rfl⟩]
      refine .alike (.ok () ⟨h.state, h.input, text ++ more, ?_, ?_⟩)
      · exact hFirst.received _ _ _ hLeft hNext
      · exact hSecond.received _ _ _ hRight hOther
    | error message later =>
      rw [onOutput_eq_error_iff.mpr ⟨message, later, hOther, rfl, rfl⟩]
      refine .lost ⟨⟨message, rfl⟩, fun hWorks => ?_⟩
      obtain ⟨_, hOk⟩ := hSecond.works hWorks _ _ hRight
      rw [hOther] at hOk
      cases hOk
  lost _ _ _ h := h

theorem follows_emit_on_other (hNever : NeverFails start) (other : χ) (text : String) :
    Follows (Parallel start other : Session ι ω → Session ι χ → Prop)
      (fun _ failure _ => Refused other failure) (emit text) (emit text) :=
  follows_onOutput hNever (passes_write start text) (passes_write other text)

variable [InputDevice ι]

theorem tolerates_parallel (config : Config) (hNever : NeverFails start) :
    Tolerates (Parallel start other : Session ι ω → Session ι χ → Prop)
      (fun _ failure _ => Refused other failure) config config where
  state _ _ h := h.state
  limit := rfl
  change update := .of_lockstep
    (fun _ _ h => .ok () ⟨congrArg update h.state, h.input, h.received⟩) fun _ _ _ h => h
  takeInput site := .of_lockstep
    (lockstep_takeInput (fun _ _ h => h.input) (fun _ _ _ h => ⟨h.state, rfl, h.received⟩) site)
    fun _ _ _ h => h
  emit text := follows_emit_on_other hNever other text
  echo text := .traced (follows_emit_on_other hNever other text)
  traceLine program index := .traced (.showLine (follows_emit_on_other hNever other) program index)
  flush := follows_onOutput hNever (passes_flush start) (passes_flush other)

/-- On an output that never fails a step does what it does on any other, unless that one refuses. -/
theorem step_on_other (config : Config) (program : Program) (session : Session ι ω)
    (hNever : NeverFails session.output) (other : χ) :
    AlikeUnless (Parallel session.output other) (fun _ failure _ => Refused other failure)
      (step config program session)
      (step config program ⟨session.state, session.input, other⟩) := by
  apply (tolerates_parallel config hNever).step.alike
  exact ⟨rfl, rfl, "", .start, .start⟩

theorem step_of_ok_on_other {config : Config} {program : Program} (session : Session ι ω)
    (hNever : NeverFails session.output) {outcome : StepOutcome} {after : Session ι χ}
    (h : step config program ⟨session.state, session.input, other⟩ = .ok outcome after) :
    ∃ output, step config program session = .ok outcome ⟨after.state, after.input, output⟩ := by
  have hUnless := step_on_other config program session hNever other
  rw [h] at hUnless
  generalize step config program session = result at hUnless ⊢
  cases hUnless with
  | alike hAlike =>
    cases hAlike with
    | @ok _ reached _ hParallel =>
      refine ⟨reached.output, ?_⟩
      rw [← hParallel.state, ← hParallel.input]

end Outputs

/-! ## Rows of attempts -/

/-- Where a fresh machine and its script are after any steps on any outputs, of which `count` went
on and the others failed for their output. -/
inductive Attempts (config : Config) (program : Program) (script : Script) :
    Nat → MachineState → Script → Prop
  | fresh : Attempts config program script 0 {} script
  | running {ω : Type} [OutputDevice ω] {count : Nat} {state : MachineState} {rest : Script}
      {output : ω} {after : Session Script ω}
      (hBefore : Attempts config program script count state rest)
      (hStep : step config program ⟨state, rest, output⟩ = .ok .running after) :
      Attempts config program script (count + 1) after.state after.input
  | refused {ω : Type} [OutputDevice ω] {count : Nat} {state : MachineState} {rest : Script}
      {output : ω} {message : String} {after : Session Script ω}
      (hBefore : Attempts config program script count state rest)
      (hStep : step config program ⟨state, rest, output⟩ =
        .error (.fault (.device message)) after) :
      Attempts config program script count after.state after.input

section Resuming

variable {ω : Type} [OutputDevice ω] {program : Program} {limit : Option UInt64}
  {script rest : Script} {count : Nat} {state : MachineState} {output : ω}

theorem steps_of_attempts (h : Attempts ⟨false, limit⟩ program script count state rest)
    (hNever : NeverFails output) :
    ∃ next, steps ⟨false, limit⟩ program count ⟨{}, script, output⟩ =
      .ok .running ⟨state, rest, next⟩ := by
  induction h with
  | fresh => exact ⟨output, rfl⟩
  | @running _ _ count state rest taken after _ hStep ih =>
    obtain ⟨next, hSteps⟩ := ih
    have hWorks : NeverFails next := neverFails_of_steps hNever hSteps
    obtain ⟨later, hLater⟩ := step_of_ok_on_other ⟨state, rest, next⟩ hWorks hStep
    refine ⟨later, ?_⟩
    rw [steps_add, hSteps]
    simp only [steps_succ, hLater]
    rfl
  | refused _ hStep ih =>
    obtain ⟨hState, hInput⟩ := unchanged_of_refusal hStep
    rw [hState, hInput]
    exact ih

/-- Refusals of the output leave no trace in a quiet machine. The next step on any output is the
one that would have come without them, unless it is refused, and then it changes nothing. -/
theorem refusals_leave_no_trace (h : Attempts ⟨false, limit⟩ program script count state rest)
    (hNever : NeverFails output) :
    ∃ next, steps ⟨false, limit⟩ program count ⟨{}, script, output⟩ =
        .ok .running ⟨state, rest, next⟩ ∧
      ∀ (χ : Type) [OutputDevice χ] (other : χ),
        AlikeUnless (Parallel next other) (fun _ failure _ => Refused other failure)
          (step ⟨false, limit⟩ program ⟨state, rest, next⟩)
          (step ⟨false, limit⟩ program ⟨state, rest, other⟩) ∧
        ∀ message after,
          step ⟨false, limit⟩ program ⟨state, rest, other⟩ =
              .error (.fault (.device message)) after →
            after.state = state ∧ after.input = rest := by
  obtain ⟨next, hSteps⟩ := steps_of_attempts h hNever
  refine ⟨next, hSteps, ?_⟩
  intro χ _ other
  constructor
  · have hWorks : NeverFails next := neverFails_of_steps hNever hSteps
    exact step_on_other _ program ⟨state, rest, next⟩ hWorks other
  · intro message after hRefused
    exact unchanged_of_refusal hRefused

end Resuming

/-- The prompt of the `READ`, its flush and the number that is printed are each refused once. -/
theorem refusals_leave_no_trace_copyNumber :
    ∃ state, Attempts ⟨false, none⟩ copyNumber ⟨["7"]⟩ 2 state ⟨[]⟩ ∧
      NeverFails copySession.output ∧
      ∃ next, steps ⟨false, none⟩ copyNumber 2 copySession = .ok .running ⟨state, ⟨[]⟩, next⟩ ∧
        state.counter = 2 ∧ state.get? "N" = some 7 := by
  have hNever : NeverFails copySession.output := Sink.neverFails ByteArray.empty
  have hPrompt : step ⟨false, none⟩ copyNumber
      { copySession with output := ({ capacity := some 0 } : Sink) } =
      .error (.fault (.device "sink full")) _ := rfl
  have hFlush : step ⟨false, none⟩ copyNumber
      { copySession with output := ({ flushFails := true } : Sink) } =
      .error (.fault (.device "flush failed")) _ := rfl
  have hRead : step ⟨false, none⟩ copyNumber copySession = .ok .running _ := rfl
  have hReadDone := ((Attempts.fresh.refused hPrompt).refused hFlush).running hRead
  have hNumber : step ⟨false, none⟩ copyNumber
      { final (step ⟨false, none⟩ copyNumber copySession) with
        output := ({ capacity := some 1 } : Sink) } = .error (.fault (.device "sink full")) _ := rfl
  have hPrint : step ⟨false, none⟩ copyNumber
      (final (step ⟨false, none⟩ copyNumber copySession)) = .ok .running _ := rfl
  have hAttempts := (hReadDone.refused hNumber).running hPrint
  obtain ⟨next, hSteps, _⟩ := refusals_leave_no_trace hAttempts hNever
  exact ⟨_, hAttempts, hNever, next, hSteps, rfl, rfl⟩

end Execution

end Accumulator
