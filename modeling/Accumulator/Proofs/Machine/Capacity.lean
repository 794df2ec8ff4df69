import Accumulator.Proofs.Machine.Lockstep

/-! # Runs on a sink with a capacity

A run on a sink with a capacity follows the run on a sink without one until the bytes written no
longer find room. It then fails, with just the bytes that did find room in the sink.
-/

namespace Accumulator

set_option autoImplicit false

namespace Sink

variable {limit : Nat} {free capped : Sink}

/-- Both sinks hold the same bytes, which find room in the second. -/
inductive HasRoom (limit : Nat) : Sink → Sink → Prop
  | mk (written : ByteArray) (hSize : written.size ≤ limit) :
      HasRoom limit ⟨written, none, false⟩ ⟨written, some limit, false⟩

/-- The second sink holds the first bytes of the other, for which it has no room. -/
inductive Overrun (limit : Nat) : Sink → Sink → Prop
  | mk (written : ByteArray) (hSize : limit < written.size) :
      Overrun limit ⟨written, none, false⟩ ⟨written.extract 0 limit, some limit, false⟩

theorem HasRoom.size_le (h : HasRoom limit free capped) : free.written.size ≤ limit := by
  cases h with
  | mk written hSize => exact hSize

theorem Overrun.limit_lt (h : Overrun limit free capped) : limit < free.written.size := by
  cases h with
  | mk written hSize => exact hSize

theorem Overrun.written_eq (h : Overrun limit free capped) :
    capped.written = free.written.extract 0 limit := by
  cases h
  rfl

theorem extract_append_of_le {written more : ByteArray} (h : written.size ≤ limit) :
    (written ++ more).extract 0 limit = written ++ more.extract 0 (limit - written.size) := by
  have hWhole : written.extract 0 limit = written := by
    rw [← ByteArray.extract_zero_size (b := written), ByteArray.extract_extract]
    simp [h]
  rw [ByteArray.extract_append, hWhole, Nat.zero_sub]

theorem extract_append_of_ge {written : ByteArray} (h : limit ≤ written.size)
    (more : ByteArray) : (written ++ more).extract 0 limit = written.extract 0 limit := by
  rw [ByteArray.extract_append, Nat.sub_eq_zero_of_le h]
  simp

theorem write_of_hasRoom (h : HasRoom limit free capped) (text : String) :
    ∃ next, OutputDevice.write text free = .ok () next ∧
      ((∃ other, OutputDevice.write text capped = .ok () other ∧ HasRoom limit next other) ∨
        ∃ other, OutputDevice.write text capped = .error "sink full" other ∧
          Overrun limit next other) := by
  obtain ⟨written, hSize⟩ := h
  refine ⟨_, rfl, ?_⟩
  by_cases hFits : (written ++ text.toByteArray).size ≤ limit
  · left
    refine ⟨_, ?_, .mk _ hFits⟩
    rw [ByteArray.size_append] at hFits
    exact if_pos hFits
  · right
    refine ⟨_, ?_, .mk _ (Nat.lt_of_not_le hFits)⟩
    rw [ByteArray.size_append] at hFits
    rw [extract_append_of_le hSize]
    exact if_neg hFits

theorem write_of_overrun (h : Overrun limit free capped) (text : String) :
    ∃ next, OutputDevice.write text free = .ok () next ∧ Overrun limit next capped := by
  obtain ⟨written, hSize⟩ := h
  refine ⟨_, rfl, ?_⟩
  rw [← extract_append_of_ge (Nat.le_of_lt hSize) text.toByteArray]
  apply Overrun.mk
  rw [ByteArray.size_append]
  omega

end Sink

namespace Execution

variable {ι : Type} {limit : Nat}

structure Fills (limit : Nat) (free capped : Session ι Sink) : Prop where
  state : free.state = capped.state
  input : free.input = capped.input
  output : Sink.HasRoom limit free.output capped.output

/-- The second session has failed for want of room. -/
structure Spills (limit : Nat) (free : Session ι Sink) (failure : Failure)
    (capped : Session ι Sink) : Prop where
  failure : failure = .fault (.device "sink full")
  output : Sink.Overrun limit free.output capped.output

theorem follows_emit (text : String) :
    Follows (Fills limit) (Spills limit) (emit text : Execution ι Sink Unit) (emit text) where
  alike free capped h := by
    obtain ⟨next, hFree, hRoom | hFull⟩ := Sink.write_of_hasRoom h.output text
    · obtain ⟨other, hCapped, hNext⟩ := hRoom
      rw [emit_eq_ok_iff.mpr ⟨next, hFree, rfl⟩, emit_eq_ok_iff.mpr ⟨other, hCapped, rfl⟩]
      exact .alike (.ok () ⟨h.state, h.input, hNext⟩)
    · obtain ⟨other, hCapped, hNext⟩ := hFull
      rw [emit_eq_ok_iff.mpr ⟨next, hFree, rfl⟩,
        emit_eq_error_iff.mpr ⟨_, other, hCapped, rfl, rfl⟩]
      exact .lost ⟨rfl, hNext⟩
  lost free failure capped h := by
    obtain ⟨next, hFree, hNext⟩ := Sink.write_of_overrun h.output text
    rw [emit_eq_ok_iff.mpr ⟨next, hFree, rfl⟩]
    exact ⟨h.failure, hNext⟩

theorem onOutput_flush_eq (session : Session ι Sink) :
    onOutput OutputDevice.flush session =
      if session.output.flushFails then .error (.fault (.device "flush failed")) session
      else .ok () session := by
  obtain ⟨state, input, output⟩ := session
  simp only [onOutput, OutputDevice.flush, Sink.flush]
  cases output.flushFails <;> rfl

theorem lockstep_flush_fills :
    Lockstep (Fills limit) (onOutput OutputDevice.flush : Execution ι Sink Unit)
      (onOutput OutputDevice.flush) := by
  rintro ⟨state, input, free⟩ ⟨_, _, capped⟩ h
  rw [onOutput_flush_eq, onOutput_flush_eq]
  obtain ⟨written, hSize⟩ := h.output
  exact .ok () ⟨h.state, h.input, .mk written hSize⟩

theorem conclude_error (failure : Failure) (session : Session ι Sink) :
    conclude (.error failure session) = .error failure session := by
  cases failure with
  | crash crash => rfl
  | fault fault =>
    simp only [conclude, onOutput_flush_eq]
    cases session.output.flushFails <;> rfl

theorem conclude_ok_output (outcome : RunOutcome) (session : Session ι Sink) :
    (final (conclude (.ok outcome session))).output = session.output := by
  simp only [conclude, onOutput_flush_eq]
  cases session.output.flushFails <;> rfl

section Results

variable {α : Type} {free capped : EStateM.Result Failure (Session ι Sink) α}

theorem alike_of_size_le (h : AlikeUnless (Fills limit) (Spills limit) free capped)
    (hSize : (final free).output.written.size ≤ limit) : Alike (Fills limit) free capped := by
  cases h with
  | alike hAlike => exact hAlike
  | lost hLost => exact absurd hSize (Nat.not_le_of_lt hLost.output.limit_lt)

theorem exists_error_of_limit_lt (h : AlikeUnless (Fills limit) (Spills limit) free capped)
    (hSize : limit < (final free).output.written.size) :
    ∃ reached, capped = .error (.fault (.device "sink full")) reached ∧
      reached.output.written = (final free).output.written.extract 0 limit := by
  cases h with
  | alike hAlike => exact absurd hAlike.final.output.size_le (Nat.not_le_of_lt hSize)
  | lost hLost =>
    obtain ⟨rfl, hOverrun⟩ := hLost
    exact ⟨_, rfl, hOverrun.written_eq⟩

end Results

variable [InputDevice ι]

theorem tolerates_fills (config : Config) (limit : Nat) :
    Tolerates (Fills limit : Session ι Sink → Session ι Sink → Prop) (Spills limit) config config
    where
  state _ _ h := h.state
  limit := rfl
  change update := .of_lockstep
    (fun _ _ h => .ok () ⟨congrArg update h.state, h.input, h.output⟩)
    fun _ _ _ h => ⟨h.failure, h.output⟩
  takeInput site := by
    refine .of_lockstep (lockstep_takeInput (fun _ _ h => h.input)
      (fun _ _ _ h => ⟨h.state, rfl, h.output⟩) site) ?_
    intro free failure capped h
    simp only [takeInput]
    split <;> exact ⟨h.failure, h.output⟩
  emit text := follows_emit text
  echo text := .traced (follows_emit text)
  traceLine program index := .traced (.showLine follows_emit program index)
  flush := by
    refine .of_lockstep lockstep_flush_fills ?_
    intro free failure capped h
    rw [onOutput_flush_eq]
    split <;> exact h

/-! ## Whole runs -/

variable {config : Config} {program : Program}

theorem output_of_run {fuel : Nat} {session : Session ι Sink} {result : RunResult ι Sink}
    (h : run fuel config program session = some result) :
    (final result).output = (final (steps config program fuel (restart session))).output := by
  rcases exists_steps_of_run h with
    ⟨termination, reached, hSteps, rfl⟩ | ⟨failure, reached, hSteps, rfl⟩
  · rw [hSteps]
    exact conclude_ok_output _ reached
  · rw [hSteps, conclude_error]
    rfl

def onEmptySink (capacity : Option Nat) (state : MachineState) (input : ι) : Session ι Sink :=
  ⟨state, input, { capacity := capacity }⟩

/-- The bytes that the first `count` steps of a run write to a sink without a capacity. -/
def bytesWritten (config : Config) (program : Program) (count : Nat) (state : MachineState)
    (input : ι) : ByteArray :=
  (final (steps config program count (restart (onEmptySink none state input)))).output.written

theorem steps_capped (config : Config) (program : Program) (limit count : Nat)
    (state : MachineState) (input : ι) :
    AlikeUnless (Fills limit) (Spills limit)
      (steps config program count (restart (onEmptySink none state input)))
      (steps config program count (restart (onEmptySink (some limit) state input))) := by
  apply ((tolerates_fills config limit).steps program count).alike
  exact ⟨rfl, rfl, .mk ByteArray.empty (Nat.zero_le limit)⟩

/-- If all its bytes find room, a run ends on the capped sink as it does without a capacity. If it
ever writes more, it fails on the capped sink, which is left with those that did find room. -/
theorem capacity_only_cuts_output (config : Config) (program : Program) (state : MachineState)
    (input : ι) (limit : Nat) :
    (∀ fuel result, run fuel config program (onEmptySink none state input) = some result →
      (final result).output.written = bytesWritten config program fuel state input ∧
      ((final result).output.written.size ≤ limit →
        ∃ other, run fuel config program (onEmptySink (some limit) state input) = some other ∧
          Alike (Fills limit) result other)) ∧
    ∀ count, limit < (bytesWritten config program count state input).size →
      ∃ after, run count config program (onEmptySink (some limit) state input) =
          some (.error (.fault (.device "sink full")) after) ∧
        after.output.written = (bytesWritten config program count state input).extract 0 limit := by
  constructor
  · intro fuel result hRun
    have hOutput := output_of_run hRun
    refine ⟨congrArg Sink.written hOutput, fun hSize => ?_⟩
    rw [hOutput] at hSize
    have hAlike := alike_of_size_le (steps_capped config program limit fuel state input) hSize
    have hRel := hAlike.run (fun _ _ h => h.state) lockstep_flush_fills
    rw [hRun] at hRel
    generalize run fuel config program (onEmptySink (some limit) state input) = ended at hRel ⊢
    cases hRel with
    | some hResult => exact ⟨_, rfl, hResult⟩
  · intro count hSize
    obtain ⟨reached, hSteps, hWritten⟩ :=
      exists_error_of_limit_lt (steps_capped config program limit count state input) hSize
    refine ⟨reached, ?_, hWritten⟩
    rw [run_eq_of_steps, hSteps]
    exact congrArg some (conclude_error _ reached)

/-- A program that prints for ever. -/
def printLoop : Program :=
  ⟨#[⟨"L PRINT =1", some "L", .print, some "=1"⟩, ⟨"BU L", none, .branchAlways, some "L"⟩],
    (∅ : SymbolTable).insert "L" ⟨0, .code⟩, 4⟩

theorem capacity_only_cuts_output_printLoop :
    bytesWritten ⟨false, none⟩ printLoop 3 {} (⟨[]⟩ : Script) = "1\n1\n".toByteArray ∧
      ∃ after, run 3 ⟨false, none⟩ printLoop (onEmptySink (some 3) {} (⟨[]⟩ : Script)) =
          some (.error (.fault (.device "sink full")) after) ∧
        after.output.written = "1\n1".toByteArray := by
  have hBytes : bytesWritten ⟨false, none⟩ printLoop 3 {} (⟨[]⟩ : Script) =
      "1\n1\n".toByteArray := rfl
  obtain ⟨_, hFull⟩ := capacity_only_cuts_output ⟨false, none⟩ printLoop {} (⟨[]⟩ : Script) 3
  obtain ⟨after, hRun, hWritten⟩ := hFull 3 (by rw [hBytes]; decide)
  refine ⟨hBytes, after, hRun, ?_⟩
  rw [hWritten, hBytes]
  rfl

end Execution

end Accumulator
