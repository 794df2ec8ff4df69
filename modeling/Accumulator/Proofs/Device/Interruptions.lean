import Accumulator.Proofs.Device.Readings

/-! # Streams whose reads fail

The bytes and the failures of a stream cut it into events, each of them a line or a failure. A
failure takes the unfinished line before it along. Every line gives the readings of its words, or a
single fault if it is not a text, and every failure gives its own fault; a line reader delivers
these one after the other and nothing else, however the bytes are cut into chunks.
-/

namespace Accumulator

set_option autoImplicit false

/-- What a stream holds at one place. -/
inductive Signal where
  | byte (value : UInt8)
  | failure (message : String)

inductive Event where
  /-- The bytes of a line, with its line feed unless the stream ends there. -/
  | line (bytes : List UInt8)
  | failure (message : String)

def Chunk.signals : List Chunk → List Signal
  | [] => []
  | .data bytes :: rest => bytes.map .byte ++ signals rest
  | .failure message :: rest => .failure message :: signals rest

/-- A stream is cut behind each line feed and behind each failure, and a failure takes the bytes of
the unfinished line along. What is left at the end is a line unless it is empty. -/
inductive Cuts : List Signal → List Event → Prop
  | nil : Cuts [] []
  | last {bytes : List UInt8} (hBytes : Chunk.lineFeed ∉ bytes) (hNonempty : bytes ≠ []) :
      Cuts (bytes.map .byte) [.line bytes]
  | line {bytes : List UInt8} {later : List Signal} {events : List Event}
      (hBytes : Chunk.lineFeed ∉ bytes) (hLater : Cuts later events) :
      Cuts (bytes.map .byte ++ .byte Chunk.lineFeed :: later)
        (.line (bytes ++ [Chunk.lineFeed]) :: events)
  | failure {bytes : List UInt8} {message : String} {later : List Signal} {events : List Event}
      (hBytes : Chunk.lineFeed ∉ bytes) (hLater : Cuts later events) :
      Cuts (bytes.map .byte ++ .failure message :: later) (.failure message :: events)

/-- The results that an event gives to its reader. -/
inductive Yields : Event → List (Except InputFault Word) → Prop
  | words {bytes : List UInt8} {text : String} {words : List String}
      (hText : String.fromUTF8? bytes.toByteArray = some text)
      (hWords : Text.HasRuns Text.isSpace text.toList words) :
      Yields (.line bytes) (words.map fun word =>
        match Decimal.int32? word with
        | some value => .ok (Int64.ofInt value)
        | none => .error (.invalid word))
  | garbled {bytes : List UInt8} (hNone : String.fromUTF8? bytes.toByteArray = none) :
      Yields (.line bytes) [.error (.stream LineReader.notUtf8)]
  | failure (message : String) : Yields (.failure message) [.error (.stream message)]

/-! ## The cut of a stream -/

namespace Signal

/-- The events of a stream behind the bytes of an unfinished line. -/
def events (held : List UInt8) : List Signal → List Event
  | [] => if held = [] then [] else [.line held]
  | .byte value :: later =>
    if value = Chunk.lineFeed then .line (held ++ [value]) :: events [] later
    else events (held ++ [value]) later
  | .failure message :: later => .failure message :: events [] later

theorem events_append {bytes : List UInt8} (hBytes : Chunk.lineFeed ∉ bytes) (held : List UInt8)
    (later : List Signal) :
    events held (bytes.map .byte ++ later) = events (held ++ bytes) later := by
  induction bytes generalizing held with
  | nil => rw [List.append_nil, List.map_nil, List.nil_append]
  | cons byte bytes ih =>
    obtain ⟨hFirst, hRest⟩ := List.ne_and_not_mem_of_not_mem_cons hBytes
    rw [List.map_cons, List.cons_append, events, if_neg (Ne.symm hFirst), ih hRest,
      List.append_assoc, List.singleton_append]

theorem eq_events_of_cuts {signals : List Signal} {cut : List Event} (h : Cuts signals cut) :
    cut = events [] signals := by
  induction h with
  | nil => rfl
  | @last bytes hBytes hNonempty =>
    have hEvents := events_append hBytes [] []
    rw [List.append_nil, List.nil_append] at hEvents
    rw [hEvents, events, if_neg hNonempty]
  | line hBytes _ ih => rw [events_append hBytes, events, if_pos rfl, ← ih, List.nil_append]
  | failure hBytes _ ih => rw [events_append hBytes, events, ← ih]

/-- The bytes of an unfinished line belong to the stream before the rest of it. -/
theorem cuts_events (signals : List Signal) {held : List UInt8} (hHeld : Chunk.lineFeed ∉ held) :
    Cuts (held.map .byte ++ signals) (events held signals) := by
  induction signals generalizing held with
  | nil =>
    rw [List.append_nil, events]
    split
    · rename_i hEmpty
      rw [hEmpty]
      exact .nil
    · rename_i hNonempty
      exact .last hHeld hNonempty
  | cons signal later ih =>
    have hLater : Cuts later (events [] later) := ih List.not_mem_nil
    cases signal with
    | failure message => exact .failure hHeld hLater
    | byte value =>
      rw [events]
      split
      · rename_i hFeed
        subst hFeed
        exact .line hHeld hLater
      · rename_i hOther
        have hLonger : Chunk.lineFeed ∉ held ++ [value] := by
          simpa [hHeld] using Ne.symm hOther
        simpa using ih hLonger

theorem cuts_iff {signals : List Signal} {cut : List Event} :
    Cuts signals cut ↔ cut = events [] signals := by
  constructor
  · exact eq_events_of_cuts
  · rintro rfl
    exact cuts_events signals List.not_mem_nil

end Signal

namespace Event

def outcomes : Event → List (Except InputFault Word)
  | line bytes =>
    match String.fromUTF8? bytes.toByteArray with
    | some text => (Text.words text).map readToken
    | none => [.error (.stream LineReader.notUtf8)]
  | failure message => [.error (.stream message)]

theorem yields_iff {event : Event} {results : List (Except InputFault Word)} :
    Yields event results ↔ results = event.outcomes := by
  constructor
  · intro h
    cases h with
    | words hText hWords =>
      rw [outcomes, hText, Text.hasRuns_iff.mp hWords]
      rfl
    | garbled hNone => rw [outcomes, hNone]
    | failure message => rfl
  · rintro rfl
    cases event with
    | failure message => exact .failure message
    | line bytes =>
      rw [outcomes]
      split
      · rename_i text hText
        exact .words hText (Text.hasRuns_iff.mpr rfl)
      · rename_i hNone
        exact .garbled hNone

theorem forall₂_yields_iff {events : List Event}
    {results : List (List (Except InputFault Word))} :
    List.Forall₂ Yields events results ↔ results = events.map outcomes := by
  constructor
  · intro h
    induction h with
    | nil => rfl
    | cons hHead _ ih => rw [List.map_cons, ← yields_iff.mp hHead, ← ih]
  · rintro rfl
    induction events with
    | nil => exact .nil
    | cons event events ih => exact .cons (yields_iff.mpr rfl) ih

end Event

/-! ## The reader on the stream -/

namespace Chunk

theorem exists_of_dropWhile_eq_cons {bytes tail : List UInt8} {feed : UInt8}
    (h : bytes.dropWhile (· != lineFeed) = feed :: tail) :
    feed = lineFeed ∧ bytes = bytes.takeWhile (· != lineFeed) ++ lineFeed :: tail := by
  have hFeed := List.head?_dropWhile_not (· != lineFeed) bytes
  rw [h] at hFeed
  obtain rfl : feed = lineFeed := by simpa using hFeed
  refine ⟨rfl, ?_⟩
  rw [← h, List.takeWhile_append_dropWhile]

theorem takeLine_eq_nil {held : List UInt8} {stream rest : List Chunk}
    (h : takeLine held stream = .ok [] rest) : rest = [] := by
  fun_induction takeLine held stream with
  | case1 =>
    cases h
    rfl
  | case2 => cases h
  | case3 _ _ _ _ ih => exact ih h
  | case4 =>
    simp only [EStateM.Result.ok.injEq, List.append_eq_nil_iff] at h
    cases h.1.2

/-- A line that is taken, or the failure that is met, is the first event of the stream. -/
theorem events_signals (held : List UInt8) (stream : List Chunk) :
    Signal.events held (signals stream) =
      match takeLine held stream with
      | .ok line rest => if line = [] then [] else .line line :: Signal.events [] (signals rest)
      | .error message rest => .failure message :: Signal.events [] (signals rest) := by
  fun_induction takeLine held stream with
  | case1 | case2 => rfl
  | case3 held bytes rest hNone ih =>
    have hBytes : lineFeed ∉ bytes := by
      intro hMem
      have hOther := List.dropWhile_eq_nil_iff.mp hNone lineFeed hMem
      simp at hOther
    rw [signals, Signal.events_append hBytes, ih]
  | case4 held bytes rest feed tail hFound =>
    obtain ⟨rfl, hBytes⟩ := exists_of_dropWhile_eq_cons hFound
    have hFront : lineFeed ∉ bytes.takeWhile (· != lineFeed) := by
      intro hMem
      have hOther := List.mem_takeWhile_imp hMem
      simp at hOther
    have hSignals : signals (.data bytes :: rest) =
        (bytes.takeWhile (· != lineFeed)).map .byte ++
          .byte lineFeed :: signals (.data tail :: rest) := by
      rw [signals, signals]
      conv_lhs => rw [hBytes]
      rw [List.map_append, List.map_cons, List.append_assoc, List.cons_append]
    rw [hSignals, Signal.events_append hFront, Signal.events, if_pos rfl]
    dsimp only
    rw [if_neg (by simp)]

end Chunk

namespace LineReader

/-- The results that a reader has still to give: those of the words that it holds, and those of the
events of its stream. -/
def remaining (reader : LineReader) : List (Except InputFault Word) :=
  reader.pending.map readToken ++
    (Signal.events [] (Chunk.signals reader.stream)).flatMap Event.outcomes

theorem nextToken_remaining (reader : LineReader) :
    match nextToken reader with
    | .ok token next => reader.remaining = readToken token :: next.remaining
    | .error fault next => reader.remaining = .error fault :: next.remaining ∨
        fault = .exhausted ∧ reader.remaining = [] ∧ next.remaining = [] := by
  fun_induction nextToken reader with
  | case1 => rfl
  | case2 stream message rest hLine =>
    have hEvents := Chunk.events_signals [] stream
    rw [hLine] at hEvents
    left
    simp only [remaining, hEvents]
    rfl
  | case3 stream rest hLine =>
    have hEvents := Chunk.events_signals [] stream
    rw [hLine] at hEvents
    obtain rfl := Chunk.takeLine_eq_nil hLine
    right
    refine ⟨rfl, ?_, rfl⟩
    simp only [remaining, hEvents]
    rfl
  | case4 stream byte bytes rest hLine hNone =>
    have hEvents := Chunk.events_signals [] stream
    rw [hLine] at hEvents
    left
    simp only [remaining, hEvents]
    simp [Event.outcomes, hNone]
  | case5 stream byte bytes rest hLine line hText ih =>
    have hEvents := Chunk.events_signals [] stream
    rw [hLine] at hEvents
    have hSame : remaining ⟨stream, []⟩ = remaining ⟨rest, Text.words line⟩ := by
      simp only [remaining, hEvents]
      simp [Event.outcomes, hText]
    rw [hSame]
    exact ih

theorem reading_remaining (reader : LineReader) :
    (reading reader).1 = reader.remaining.head?.getD (.error .exhausted) ∧
      (reading reader).2.remaining = reader.remaining.tail := by
  have hNext := nextToken_remaining reader
  simp only [reading, InputDevice.read, read]
  generalize nextToken reader = result at hNext ⊢
  cases result with
  | error fault next =>
    rcases hNext with hFault | ⟨rfl, hNone, hRest⟩
    · rw [hFault]
      exact ⟨rfl, rfl⟩
    · rw [hNone]
      exact ⟨rfl, hRest⟩
  | ok token next =>
    dsimp only at hNext ⊢
    rw [hNext]
    cases readToken token <;> exact ⟨rfl, rfl⟩

theorem readings_eq_remaining (reader : LineReader) (index : Nat) :
    readings reader index = reader.remaining[index]?.getD (.error .exhausted) := by
  induction index generalizing reader with
  | zero =>
    rw [readings, (reading_remaining reader).1, List.head?_eq_getElem?]
  | succ index ih =>
    rw [readings, ih, (reading_remaining reader).2, List.getElem?_tail]

end LineReader

/-- A reader on any stream gives what the events of the stream yield, one result after the other,
and is exhausted behind the last of them. Every stream is cut in one way, and every event yields
the same results each time. -/
theorem readings_of_cuts (stream : List Chunk) :
    (∃ events outcomes, Cuts (Chunk.signals stream) events ∧
      List.Forall₂ Yields events outcomes) ∧
    ∀ events outcomes, Cuts (Chunk.signals stream) events → List.Forall₂ Yields events outcomes →
      ∀ index, readings (⟨stream, []⟩ : LineReader) index =
        outcomes.flatten[index]?.getD (.error .exhausted) := by
  constructor
  · exact ⟨_, _, Signal.cuts_iff.mpr rfl, Event.forall₂_yields_iff.mpr rfl⟩
  · intro events outcomes hCuts hYields index
    have hRemaining : LineReader.remaining ⟨stream, []⟩ = outcomes.flatten := by
      rw [Event.forall₂_yields_iff.mp hYields, Signal.cuts_iff.mp hCuts]
      rfl
    rw [LineReader.readings_eq_remaining, hRemaining]

/-- Two failures in a row inside a line, a line without words, one that is no text, and a last line
without a line feed. -/
def brokenStream : List Chunk :=
  [.data [49, 32, 120, 10, 50], .failure "late", .failure "lost", .data [10, 255, 10, 51]]

def brokenEvents : List Event :=
  [.line [49, 32, 120, 10], .failure "late", .failure "lost", .line [10], .line [255, 10],
    .line [51]]

def brokenOutcomes : List (List (Except InputFault Word)) :=
  [[.ok 1, .error (.invalid "x")], [.error (.stream "late")], [.error (.stream "lost")], [],
    [.error (.stream LineReader.notUtf8)], [.ok 3]]

theorem readings_of_cuts_brokenStream :
    Cuts (Chunk.signals brokenStream) brokenEvents ∧
      List.Forall₂ Yields brokenEvents brokenOutcomes ∧
      readings (⟨brokenStream, []⟩ : LineReader) 3 = .error (.stream "lost") ∧
      readings (⟨brokenStream, []⟩ : LineReader) 5 = .ok 3 ∧
      ∀ index, readings (⟨brokenStream, []⟩ : LineReader) (index + 6) = .error .exhausted := by
  have hCuts : Cuts (Chunk.signals brokenStream) brokenEvents := Signal.cuts_iff.mpr (by rfl)
  have hYields : List.Forall₂ Yields brokenEvents brokenOutcomes :=
    Event.forall₂_yields_iff.mpr (by decide)
  have hReadings := (readings_of_cuts brokenStream).2 _ _ hCuts hYields
  exact ⟨hCuts, hYields, hReadings 3, hReadings 5, fun index => hReadings (index + 6)⟩

end Accumulator
