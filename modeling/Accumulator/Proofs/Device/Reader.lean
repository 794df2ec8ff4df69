import Accumulator.Proofs.Text.Encoding
import Mathlib.Data.List.TakeWhile

/-! # Line readers and scripts

A line reader on a stream that delivers the bytes of a text gives the words of the text one after
the other, however the stream is cut into chunks. It holds the words of the lines that it has
taken, and the lines that it has not taken are those of the rest of the text.
-/

namespace Accumulator

set_option autoImplicit false

namespace Chunk

/-- The stream gives these bytes, and no read of it fails. -/
inductive Delivers : List Chunk → List UInt8 → Prop
  | nil : Delivers [] []
  | data (bytes : List UInt8) {stream : List Chunk} {later : List UInt8}
      (h : Delivers stream later) : Delivers (.data bytes :: stream) (bytes ++ later)

/-- The bytes up to the first line feed, and that line feed if there is one. -/
def firstLine (bytes : List UInt8) : List UInt8 :=
  bytes.takeWhile (· != lineFeed) ++ (bytes.dropWhile (· != lineFeed)).take 1

/-- The bytes behind the first line feed. -/
def laterLines (bytes : List UInt8) : List UInt8 :=
  (bytes.dropWhile (· != lineFeed)).drop 1

theorem firstLine_append_of_dropWhile_eq_nil {bytes : List UInt8}
    (h : bytes.dropWhile (· != lineFeed) = []) (later : List UInt8) :
    firstLine (bytes ++ later) = bytes ++ firstLine later ∧
      laterLines (bytes ++ later) = laterLines later := by
  have hAll : bytes.takeWhile (· != lineFeed) = bytes := by
    have hParts := List.takeWhile_append_dropWhile (p := (· != lineFeed)) (l := bytes)
    rwa [h, List.append_nil] at hParts
  constructor
  · simp [firstLine, List.takeWhile_append, List.dropWhile_append, h, hAll]
  · simp [laterLines, List.dropWhile_append, h]

theorem firstLine_append_of_dropWhile_eq_cons {bytes tail : List UInt8} {feed : UInt8}
    (h : bytes.dropWhile (· != lineFeed) = feed :: tail) (later : List UInt8) :
    firstLine (bytes ++ later) = bytes.takeWhile (· != lineFeed) ++ [feed] ∧
      laterLines (bytes ++ later) = tail ++ later := by
  have hShort : (bytes.takeWhile (· != lineFeed)).length ≠ bytes.length := by
    have hParts := congrArg List.length
      (List.takeWhile_append_dropWhile (p := (· != lineFeed)) (l := bytes))
    rw [List.length_append, h, List.length_cons] at hParts
    omega
  constructor
  · simp [firstLine, List.takeWhile_append, List.dropWhile_append, h, hShort]
  · simp [laterLines, List.dropWhile_append, h]

theorem takeLine_of_delivers {stream : List Chunk} {bytes : List UInt8} (h : Delivers stream bytes)
    (held : List UInt8) :
    ∃ rest, takeLine held stream = .ok (held ++ firstLine bytes) rest ∧
      Delivers rest (laterLines bytes) := by
  induction h generalizing held with
  | nil =>
    refine ⟨[], ?_, .nil⟩
    simp [takeLine, firstLine]
  | @data bytes stream later hStream ih =>
    rw [takeLine]
    split
    · rename_i hNone
      obtain ⟨hLine, hLater⟩ := firstLine_append_of_dropWhile_eq_nil hNone later
      obtain ⟨rest, hTaken, hRest⟩ := ih (held ++ bytes)
      rw [hLine, hLater, ← List.append_assoc]
      exact ⟨rest, hTaken, hRest⟩
    · rename_i feed tail hFound
      obtain ⟨hLine, hLater⟩ := firstLine_append_of_dropWhile_eq_cons hFound later
      rw [hLine, hLater, ← List.append_assoc]
      exact ⟨.data tail :: stream, rfl, .data tail hStream⟩

end Chunk

namespace Text

/-- The first line of a text is a text, also in bytes, and has its own words. -/
structure FirstLine (text line later : String) : Prop where
  line_eq : Chunk.firstLine (encoded text) = encoded line
  later_eq : Chunk.laterLines (encoded text) = encoded later
  words_eq : words text = words line ++ words later
  nonempty : text ≠ "" → line ≠ ""

theorem dropWhile_encoded_eq_nil {line : String} (h : '\n' ∉ line.toList) :
    (encoded line).dropWhile (· != Chunk.lineFeed) = [] := by
  have hFree : ∀ byte ∈ encoded line, (byte != Chunk.lineFeed) = true := by
    intro byte hByte
    rw [encoded_eq_flatMap] at hByte
    obtain ⟨c, hChar, hMem⟩ := List.mem_flatMap.mp hByte
    have hOther : byte ≠ Chunk.lineFeed := by
      rintro rfl
      rw [eq_lineFeed_of_mem_utf8EncodeChar hMem] at hChar
      exact h hChar
    simpa using hOther
  exact List.dropWhile_eq_nil_iff.mpr hFree

theorem exists_firstLine (text : String) : ∃ line later, FirstLine text line later := by
  by_cases hFeed : '\n' ∈ text.toList
  · obtain ⟨front, back, hText, hFront⟩ := List.eq_append_cons_of_mem hFeed
    have hSplit : text = String.ofList front ++ "\n" ++ String.ofList back := by
      apply String.toList_inj.mp
      simp [hText]
    have hFree : '\n' ∉ (String.ofList front).toList := by simpa using hFront
    have hNone := dropWhile_encoded_eq_nil hFree
    have hByte : encoded "\n" = [Chunk.lineFeed] := rfl
    have hBytes : encoded text =
        encoded (String.ofList front) ++ Chunk.lineFeed :: encoded (String.ofList back) := by
      rw [hSplit, encoded_append, encoded_append, hByte, List.append_assoc, List.singleton_append]
    obtain ⟨hLine, hLater⟩ := Chunk.firstLine_append_of_dropWhile_eq_nil hNone
      (Chunk.lineFeed :: encoded (String.ofList back))
    refine ⟨String.ofList front ++ "\n", String.ofList back, ?_, ?_, ?_, ?_⟩
    · rw [hBytes, hLine, encoded_append, hByte]
      simp [Chunk.firstLine]
    · rw [hBytes, hLater]
      simp [Chunk.laterLines]
    · have hWhole : words text = words (String.ofList front) ++ words (String.ofList back) :=
        runs_append_of_separator (c := '\n') (by simpa using hText) (by decide)
      have hFirst : words (String.ofList front ++ "\n") = words (String.ofList front) ++ words "" :=
        runs_append_of_separator (c := '\n') (by simp) (by decide)
      have hEmpty : words "" = [] := runs_empty isSpace
      rw [hWhole, hFirst, hEmpty, List.append_nil]
    · intro _ hEmpty
      have hChars := congrArg String.toList hEmpty
      simp at hChars
  · have hNone := dropWhile_encoded_eq_nil hFeed
    obtain ⟨hLine, hLater⟩ := Chunk.firstLine_append_of_dropWhile_eq_nil hNone []
    rw [List.append_nil] at hLine hLater
    have hEmpty : words "" = [] := runs_empty isSpace
    refine ⟨text, "", ?_, hLater, ?_, id⟩
    · rw [hLine]
      exact List.append_nil _
    · rw [hEmpty, List.append_nil]

end Text

/-! ## Reading words -/

namespace LineReader

/-- What is left to read: the words held and those of the text that the stream still delivers. -/
def Offers (reader : LineReader) (tokens : List String) : Prop :=
  ∃ text, Chunk.Delivers reader.stream (Text.encoded text) ∧
    tokens = reader.pending ++ Text.words text

/-- A line that is taken from the stream is the first line of the text that the stream delivers. -/
theorem exists_line_of_takeLine {stream rest : List Chunk} {bytes : List UInt8} {text : String}
    (hDelivers : Chunk.Delivers stream (Text.encoded text))
    (hTaken : Chunk.takeLine [] stream = .ok bytes rest) :
    ∃ line later, bytes = Text.encoded line ∧ Chunk.Delivers rest (Text.encoded later) ∧
      Text.words text = Text.words line ++ Text.words later ∧ (text ≠ "" → line ≠ "") := by
  obtain ⟨line, later, hFirst⟩ := Text.exists_firstLine text
  obtain ⟨found, hFound, hRest⟩ := Chunk.takeLine_of_delivers hDelivers []
  rw [hTaken, List.nil_append, hFirst.line_eq] at hFound
  cases hFound
  rw [hFirst.later_eq] at hRest
  exact ⟨line, later, rfl, hRest, hFirst.words_eq, hFirst.nonempty⟩

/-- The next word is given, and none only when there is none left. -/
theorem nextToken_of_offers {reader : LineReader} {tokens : List String}
    (h : reader.Offers tokens) :
    ∃ next : LineReader, next.Offers tokens.tail ∧
      nextToken reader = tokens.head?.elim (.error .exhausted next) (.ok · next) := by
  fun_induction nextToken reader with
  | case1 stream token pending =>
    obtain ⟨text, hDelivers, rfl⟩ := h
    exact ⟨⟨stream, pending⟩, ⟨text, hDelivers, rfl⟩, rfl⟩
  | case2 stream message rest hLine =>
    obtain ⟨text, hDelivers, _⟩ := h
    obtain ⟨_, hTaken, _⟩ := Chunk.takeLine_of_delivers hDelivers []
    rw [hLine] at hTaken
    cases hTaken
  | case3 stream rest hLine =>
    obtain ⟨text, hDelivers, rfl⟩ := h
    obtain ⟨line, later, hBytes, hRest, hWords, hNonempty⟩ :=
      exists_line_of_takeLine hDelivers hLine
    have hEmpty : text = "" := by
      apply Classical.byContradiction
      intro hText
      exact hNonempty hText (Text.encoded_eq_nil_iff.mp hBytes.symm)
    subst hEmpty
    have hNone : Text.words "" = [] := Text.runs_empty _
    rw [hNone] at hWords ⊢
    obtain ⟨_, hLater⟩ := List.append_eq_nil_iff.mp hWords.symm
    exact ⟨⟨rest, []⟩, ⟨later, hRest, hLater.symm⟩, rfl⟩
  | case4 stream rest byte bytes hLine hText =>
    obtain ⟨text, hDelivers, _⟩ := h
    obtain ⟨line, _, hBytes, _⟩ := exists_line_of_takeLine hDelivers hLine
    rw [hBytes, Text.toByteArray_encoded, Text.fromUTF8?_toByteArray] at hText
    cases hText
  | case5 stream rest byte bytes hLine line hText ih =>
    obtain ⟨text, hDelivers, rfl⟩ := h
    obtain ⟨_, later, hBytes, hRest, hWords, _⟩ := exists_line_of_takeLine hDelivers hLine
    rw [hBytes, Text.toByteArray_encoded, Text.fromUTF8?_toByteArray] at hText
    cases hText
    exact ih ⟨later, hRest, hWords⟩

end LineReader

/-! ## Devices that read alike -/

/-- Reads with the same word or the same fault, that leave related devices. -/
inductive ReadsAlike {ι κ : Type} (R : ι → κ → Prop) :
    EStateM.Result InputFault ι Word → EStateM.Result InputFault κ Word → Prop
  | ok (value : Word) {left : ι} {right : κ} (h : R left right) :
      ReadsAlike R (.ok value left) (.ok value right)
  | error (fault : InputFault) {left : ι} {right : κ} (h : R left right) :
      ReadsAlike R (.error fault left) (.error fault right)

theorem readsAlike_script {reader : LineReader} {script : Script}
    (h : reader.Offers script.tokens) :
    ReadsAlike (fun reader script => LineReader.Offers reader script.tokens)
      (InputDevice.read reader) (InputDevice.read script) := by
  obtain ⟨tokens⟩ := script
  obtain ⟨next, hNext, hRead⟩ := LineReader.nextToken_of_offers h
  change ReadsAlike _ (LineReader.read reader) (Script.read ⟨tokens⟩)
  cases tokens with
  | nil =>
    rw [LineReader.read, hRead]
    exact .error .exhausted hNext
  | cons token later =>
    rw [LineReader.read, hRead]
    simp only [Script.read, List.head?_cons, Option.elim_some]
    cases readToken token with
    | ok value => exact .ok value hNext
    | error fault => exact .error fault hNext

end Accumulator
