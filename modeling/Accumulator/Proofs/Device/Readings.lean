import Accumulator.Proofs.Device.Reader

/-! # Readings of an input device

Read for ever, a device gives an infinite sequence of words and faults. A script gives the reading
of each of its words in turn and is exhausted from then on. A line reader on a stream that delivers
a text gives the same sequence as the script of that text: it takes lines until one has a word, and
since each line makes the stream shorter, every read comes to an end.
-/

namespace Accumulator

set_option autoImplicit false

section Devices

variable {ι κ : Type} [InputDevice ι] [InputDevice κ]

/-- What a read gives, and the device that it leaves behind. -/
def reading (device : ι) : Except InputFault Word × ι :=
  match InputDevice.read device with
  | .ok value rest => (.ok value, rest)
  | .error fault rest => (.error fault, rest)

def readings (device : ι) : Nat → Except InputFault Word
  | 0 => (reading device).1
  | index + 1 => readings (reading device).2 index

theorem ReadsAlike.reading {R : ι → κ → Prop} {left : ι} {right : κ}
    (h : ReadsAlike R (InputDevice.read left) (InputDevice.read right)) :
    (reading left).1 = (reading right).1 ∧ R (reading left).2 (reading right).2 := by
  simp only [Accumulator.reading]
  generalize InputDevice.read left = taken, InputDevice.read right = other at h ⊢
  cases h with
  | ok value hNext | error fault hNext => exact ⟨rfl, hNext⟩

theorem readings_eq_of_readsAlike {R : ι → κ → Prop}
    (hReads : ∀ left right, R left right →
      ReadsAlike R (InputDevice.read left) (InputDevice.read right))
    {left : ι} {right : κ} (h : R left right) (index : Nat) :
    readings left index = readings right index := by
  induction index generalizing left right with
  | zero => exact (hReads left right h).reading.1
  | succ index ih => exact ih (hReads left right h).reading.2

end Devices

namespace Script

theorem reading_nil : reading (⟨[]⟩ : Script) = (.error .exhausted, ⟨[]⟩) := rfl

theorem reading_cons (token : String) (tokens : List String) :
    reading (⟨token :: tokens⟩ : Script) = (readToken token, ⟨tokens⟩) := by
  simp only [reading, InputDevice.read, Script.read]
  cases readToken token <;> rfl

theorem readings_eq (tokens : List String) (index : Nat) :
    readings (⟨tokens⟩ : Script) index =
      match tokens[index]? with
      | some token => readToken token
      | none => .error .exhausted := by
  induction index generalizing tokens with
  | zero =>
    cases tokens with
    | nil => rfl
    | cons token tokens => rw [readings, reading_cons]; rfl
  | succ index ih =>
    cases tokens with
    | nil => rw [readings, reading_nil, ih]; rfl
    | cons token tokens => rw [readings, reading_cons, ih, List.getElem?_cons_succ]

end Script

/-- However the bytes of a text are cut into chunks, a reader gives what the script of the text
gives: one result for each word between the white space of the whole text, in order, which is the
value of the word or a fault that names it, and after these the fault of an exhausted input. -/
theorem readings_of_delivers {text : String} {stream : List Chunk}
    (h : Chunk.Delivers stream (Text.encoded text)) :
    (∀ words, Text.HasRuns Text.isSpace text.toList words ↔ words = Text.words text) ∧
    ∀ index,
      readings (⟨stream, []⟩ : LineReader) index = readings (Script.ofText text) index ∧
      readings (⟨stream, []⟩ : LineReader) index =
        match (Text.words text)[index]? with
        | some word =>
          match Decimal.int32? word with
          | some value => .ok (Int64.ofInt value)
          | none => .error (.invalid word)
        | none => .error .exhausted := by
  have hOffers : LineReader.Offers ⟨stream, []⟩ (Script.ofText text).tokens := ⟨text, h, rfl⟩
  have hSame : ∀ index,
      readings (⟨stream, []⟩ : LineReader) index = readings (Script.ofText text) index :=
    readings_eq_of_readsAlike (fun _ _ => readsAlike_script) hOffers
  refine ⟨fun words => Text.hasRuns_iff, fun index => ⟨hSame index, ?_⟩⟩
  rw [hSame index]
  exact Script.readings_eq (Text.words text) index

/-- Lines without words, a word that is no number, and a space of three bytes. -/
def scatteredWords : String := "1\n\n \n+2 x\u2003-3"

/-- The bytes of `scatteredWords`, cut inside its space among other places. -/
def scatteredChunks : List Chunk :=
  [.data [49], .data [], .data [10, 10, 32, 10, 43], .data [50, 32, 120, 226],
    .data [128, 131, 45, 51]]

theorem readings_of_delivers_scatteredWords :
    Chunk.Delivers scatteredChunks (Text.encoded scatteredWords) ∧
      (List.range 6).map (readings (⟨scatteredChunks, []⟩ : LineReader)) =
        [.ok 1, .ok 2, .error (.invalid "x"), .ok (-3), .error .exhausted, .error .exhausted] := by
  have hDelivers : Chunk.Delivers scatteredChunks (Text.encoded scatteredWords) :=
    .data [49] (.data [] (.data [10, 10, 32, 10, 43] (.data [50, 32, 120, 226]
      (.data [128, 131, 45, 51] .nil))))
  obtain ⟨_, hReadings⟩ := readings_of_delivers hDelivers
  refine ⟨hDelivers, ?_⟩
  rw [List.map_congr_left fun index _ => (hReadings index).2]
  rfl

end Accumulator
