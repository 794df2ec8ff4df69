import Accumulator.Device.Output

/-! # Transcripts of output devices

What an output has been given is a text of its own, whatever the device makes of it. An output
never fails if no write and no flush fails after any such text; a sink without a capacity whose
flush works is one, and it holds exactly the bytes of its transcript. A recorder keeps the
transcript of a device beside it.
-/

namespace Accumulator

set_option autoImplicit false

section Devices

variable {ω : Type} [OutputDevice ω]

/-- The output has taken the text since it was `start`. -/
inductive Received (start : ω) : ω → String → Prop
  | start : Received start start ""
  | write {output next : ω} {text : String} (more : String) (hBefore : Received start output text)
      (hWrite : OutputDevice.write more output = .ok () next) : Received start next (text ++ more)
  | flush {output next : ω} {text : String} (hBefore : Received start output text)
      (hFlush : OutputDevice.flush output = .ok () next) : Received start next text

/-- No write and no flush fails from here on. -/
def NeverFails (start : ω) : Prop :=
  ∀ output text, Received start output text →
    (∀ more, ∃ next, OutputDevice.write more output = .ok () next) ∧
      ∃ next, OutputDevice.flush output = .ok () next

theorem NeverFails.write {start output : ω} {text : String} (h : NeverFails start)
    (hReceived : Received start output text) (more : String) :
    ∃ next, OutputDevice.write more output = .ok () next ∧ Received start next (text ++ more) := by
  obtain ⟨next, hWrite⟩ := (h output text hReceived).1 more
  exact ⟨next, hWrite, .write more hReceived hWrite⟩

theorem NeverFails.flush {start output : ω} {text : String} (h : NeverFails start)
    (hReceived : Received start output text) :
    ∃ next, OutputDevice.flush output = .ok () next ∧ Received start next text := by
  obtain ⟨next, hFlush⟩ := (h output text hReceived).2
  exact ⟨next, hFlush, .flush hReceived hFlush⟩

theorem Received.trans {start middle output : ω} {text more : String}
    (hFirst : Received start middle text) (hSecond : Received middle output more) :
    Received start output (text ++ more) := by
  induction hSecond with
  | start =>
    rw [String.append_empty]
    exact hFirst
  | write later _ hWrite ih =>
    rw [← String.append_assoc]
    exact .write later ih hWrite
  | flush _ hFlush ih => exact .flush ih hFlush

theorem NeverFails.of_received {start output : ω} {text : String} (h : NeverFails start)
    (hReceived : Received start output text) : NeverFails output :=
  fun next more hMore => h next (text ++ more) (hReceived.trans hMore)

/-- The action hands the text to the output, and fails only on an output that can fail. -/
structure Passes (start : ω) (action : EStateM String ω Unit) (more : String) : Prop where
  received : ∀ output next text, Received start output text → action output = .ok () next →
    Received start next (text ++ more)
  works : NeverFails start → ∀ output text, Received start output text →
    ∃ next, action output = .ok () next

theorem passes_write (start : ω) (more : String) :
    Passes start (OutputDevice.write more) more where
  received _ _ _ hBefore hWrite := .write more hBefore hWrite
  works hNever output text hReceived := (hNever output text hReceived).1 more

theorem passes_flush (start : ω) : Passes start OutputDevice.flush "" where
  received _ _ _ hBefore hFlush := by
    rw [String.append_empty]
    exact .flush hBefore hFlush
  works hNever output text hReceived := (hNever output text hReceived).2

end Devices

/-- A device with the text that it has accepted. -/
structure Recorder (ω : Type) where
  device : ω
  text : String

namespace Recorder

variable {ω : Type}

/-- Works on the device, and on the text if the device accepts. -/
def watch (keep : String → String) (action : EStateM String ω Unit) :
    EStateM String (Recorder ω) Unit := fun ⟨device, text⟩ =>
  match action device with
  | .ok _ device => .ok () ⟨device, keep text⟩
  | .error message device => .error message ⟨device, text⟩

instance [OutputDevice ω] : OutputDevice (Recorder ω) where
  write more := watch (· ++ more) (OutputDevice.write more)
  flush := watch id OutputDevice.flush

theorem watch_of_ok {keep : String → String} {action : EStateM String ω Unit}
    {recorder : Recorder ω} {next : ω} (h : action recorder.device = .ok () next) :
    watch keep action recorder = .ok () ⟨next, keep recorder.text⟩ := by
  simp only [watch, h]

section Text

variable {keep : String → String} {action : EStateM String ω Unit} {recorder next : Recorder ω}

theorem text_of_watch_ok (h : watch keep action recorder = .ok () next) :
    next.text = keep recorder.text := by
  simp only [watch] at h
  split at h
  · cases h
    rfl
  · cases h

theorem text_of_watch_error {message : String}
    (h : watch keep action recorder = .error message next) : next.text = recorder.text := by
  simp only [watch] at h
  split at h
  · cases h
  · cases h
    rfl

end Text

theorem write_of_ok [OutputDevice ω] {recorder : Recorder ω} {more : String} {next : ω}
    (h : OutputDevice.write more recorder.device = .ok () next) :
    OutputDevice.write more recorder = .ok () ⟨next, recorder.text ++ more⟩ :=
  watch_of_ok h

theorem flush_of_ok [OutputDevice ω] {recorder : Recorder ω} {next : ω}
    (h : OutputDevice.flush recorder.device = .ok () next) :
    OutputDevice.flush recorder = .ok () ⟨next, recorder.text⟩ :=
  watch_of_ok h

end Recorder

namespace Sink

theorem eq_of_received {written : ByteArray} {sink : Sink} {text : String}
    (h : Received ⟨written, none, false⟩ sink text) :
    sink = ⟨written ++ text.toByteArray, none, false⟩ := by
  induction h with
  | start => simp
  | write more _ hWrite ih =>
    subst ih
    cases hWrite
    rw [String.toByteArray_append, ByteArray.append_assoc]
  | flush _ hFlush ih =>
    subst ih
    cases hFlush
    rfl

theorem neverFails (written : ByteArray) : NeverFails (⟨written, none, false⟩ : Sink) := by
  intro sink text hReceived
  rw [eq_of_received hReceived]
  exact ⟨fun more => ⟨_, rfl⟩, _, rfl⟩

end Sink

end Accumulator
