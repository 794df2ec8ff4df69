import Accumulator.Proofs.Device.Reader
import Accumulator.Proofs.Machine.Lockstep

/-! # Runs on mirrored inputs

Two input devices mirror each other if their reads give the same words and the same faults for
ever. A machine cannot tell such devices apart.
-/

namespace Accumulator.Execution

set_option autoImplicit false

variable {ι κ ω : Type} [InputDevice ι] [InputDevice κ] [OutputDevice ω] {I : ι → κ → Prop}

/-- Equal but for the input devices, which are related. -/
structure Mirrors (I : ι → κ → Prop) (left : Session ι ω) (right : Session κ ω) : Prop where
  state : left.state = right.state
  input : I left.input right.input
  output : left.output = right.output

omit [InputDevice ι] [InputDevice κ] [OutputDevice ω] in
theorem mirrors_onOutput (action : EStateM String ω Unit) :
    Lockstep (Mirrors I : Session ι ω → Session κ ω → Prop) (onOutput action)
      (onOutput action) := by
  rintro ⟨state, input, output⟩ ⟨_, other, _⟩ ⟨hState, hInput, hOutput⟩
  cases hState
  cases hOutput
  simp only [onOutput]
  cases action output with
  | ok _ next => exact .ok () ⟨rfl, hInput, rfl⟩
  | error message next => exact .error _ ⟨rfl, hInput, rfl⟩

theorem respects_mirrors
    (hReads : ∀ left right, I left right →
      ReadsAlike I (InputDevice.read left) (InputDevice.read right)) :
    Respects (Mirrors I : Session ι ω → Session κ ω → Prop) where
  state _ _ h := h.state
  change update _ _ h := .ok () ⟨congrArg update h.state, h.input, h.output⟩
  takeInput site := by
    intro left right h
    have hAlike := hReads _ _ h.input
    simp only [takeInput]
    generalize InputDevice.read left.input = taken, InputDevice.read right.input = other at hAlike ⊢
    cases hAlike with
    | ok value hNext => exact .ok value ⟨h.state, hNext, h.output⟩
    | error fault hNext => exact .error _ ⟨h.state, hNext, h.output⟩
  emit text := mirrors_onOutput _
  flush := mirrors_onOutput _

/-- A reader that still delivers the words of a script runs every program as the script does. -/
theorem mirrors_run {reader : LineReader} {script : Script} (h : reader.Offers script.tokens)
    (config : Config) (program : Program) (fuel : Nat) (output : ω) :
    Option.Rel (Alike (Mirrors fun reader script => LineReader.Offers reader script.tokens))
      (run fuel config program ⟨{}, reader, output⟩)
      (run fuel config program ⟨{}, script, output⟩) := by
  have hStart : Mirrors (fun reader script => LineReader.Offers reader script.tokens)
      (restart ⟨{}, reader, output⟩) (restart ⟨{}, script, output⟩) := ⟨rfl, h, rfl⟩
  exact (respects_mirrors fun _ _ => readsAlike_script).run hStart config program fuel

end Accumulator.Execution
