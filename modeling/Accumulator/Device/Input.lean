import Accumulator.Text.Decimal
import Accumulator.Text.Field

/-! # Input devices

`READ` takes its words from an input device. A script holds its words from the start; a line
reader takes them from a stream of bytes, a line at a time, and a read of the stream may fail.
-/

namespace Accumulator

set_option autoImplicit false

inductive InputFault where
  | exhausted
  /-- The next word of the input is not an integer of 32 bits; it is used up. -/
  | invalid (token : String)
  | stream (message : String)
  deriving DecidableEq, Repr

def InputFault.message : InputFault → String
  | exhausted => "input exhausted"
  | invalid token => token ++ " is not a valid number"
  | stream text => "input stream failed: " ++ text

class InputDevice (ι : Type) where
  read : EStateM InputFault ι Word

def readToken (token : String) : Except InputFault Word :=
  match Decimal.int32? token with
  | some value => .ok (Int64.ofInt value)
  | none => .error (.invalid token)

structure Script where
  tokens : List String
  deriving DecidableEq, Repr

namespace Script

def ofText (text : String) : Script :=
  ⟨Text.words text⟩

def ofWords (values : List Word) : Script :=
  ⟨values.map Decimal.ofWord⟩

def remaining (script : Script) : Nat :=
  script.tokens.length

def read : EStateM InputFault Script Word
  | ⟨[]⟩ => .error .exhausted ⟨[]⟩
  | ⟨token :: tokens⟩ =>
    match readToken token with
    | .ok value => .ok value ⟨tokens⟩
    | .error fault => .error fault ⟨tokens⟩

end Script

instance : InputDevice Script := ⟨Script.read⟩

theorem Script.read_ok {script rest : Script} {value : Word}
    (h : InputDevice.read script = .ok value rest) :
    ∃ token number, script.tokens = token :: rest.tokens ∧ Decimal.int32? token = some number ∧
      value = Int64.ofInt number := by
  obtain ⟨tokens⟩ := script
  cases tokens with
  | nil => cases h
  | cons token tokens =>
    simp only [InputDevice.read, Script.read, readToken] at h
    cases hNumber : Decimal.int32? token with
    | none =>
      rw [hNumber] at h
      cases h
    | some number =>
      rw [hNumber] at h
      cases h
      exact ⟨token, number, rfl, hNumber, rfl⟩

theorem Script.read_error {script rest : Script} {cause : InputFault}
    (h : InputDevice.read script = .error cause rest) :
    (cause = .exhausted ∧ script.tokens = [] ∧ rest = script) ∨
    ∃ token, cause = .invalid token ∧ script.tokens = token :: rest.tokens := by
  obtain ⟨tokens⟩ := script
  cases tokens with
  | nil =>
    cases h
    exact .inl ⟨rfl, rfl, rfl⟩
  | cons token tokens =>
    simp only [InputDevice.read, Script.read, readToken] at h
    cases hNumber : Decimal.int32? token with
    | none =>
      rw [hNumber] at h
      cases h
      exact .inr ⟨token, rfl, rfl⟩
    | some number =>
      rw [hNumber] at h
      cases h

/-- One read of a stream: bytes, or a failure with its text. -/
inductive Chunk where
  | data (bytes : List UInt8)
  | failure (message : String)
  deriving DecidableEq, Repr

namespace Chunk

/-- The number of reads and bytes in a stream. -/
def weight : List Chunk → Nat
  | [] => 0
  | data bytes :: rest => bytes.length + 1 + weight rest
  | failure _ :: rest => 1 + weight rest

def lineFeed : UInt8 := 10

/-- Takes the bytes up to and including the next line feed, or up to the end of the stream,
behind those already held. A failing read is used up and the line before it is lost. -/
def takeLine (held : List UInt8) : List Chunk → EStateM.Result String (List Chunk) (List UInt8)
  | [] => .ok held []
  | failure message :: rest => .error message rest
  | data bytes :: rest =>
    match bytes.dropWhile (· != lineFeed) with
    | [] => takeLine (held ++ bytes) rest
    | feed :: tail => .ok (held ++ bytes.takeWhile (· != lineFeed) ++ [feed]) (data tail :: rest)

theorem weight_takeLine_le (held line : List UInt8) (stream rest : List Chunk)
    (h : takeLine held stream = .ok line rest) :
    weight rest + line.length ≤ weight stream + held.length := by
  fun_induction takeLine held stream with
  | case1 held => grind
  | case2 => cases h
  | case3 held bytes tail hRest ih =>
    have hBound := ih h
    simp only [weight, List.length_append] at hBound ⊢
    omega
  | case4 held bytes tail feed after hRest =>
    have hParts : (bytes.takeWhile (· != lineFeed)).length +
        (bytes.dropWhile (· != lineFeed)).length = bytes.length := by
      rw [← List.length_append, List.takeWhile_append_dropWhile]
    rw [hRest, List.length_cons] at hParts
    cases h
    simp only [weight, List.length_append, List.length_cons, List.length_nil]
    omega

end Chunk

/-- A stream with the words of the lines taken from it that are not yet used up. -/
structure LineReader where
  stream : List Chunk
  pending : List String
  deriving DecidableEq, Repr

namespace LineReader

/-- The text of the failure that a line outside UTF-8 causes. -/
def notUtf8 : String := "stream did not contain valid UTF-8"

/-- Uses up the next token, taking lines from the stream until one has a word. -/
def nextToken (reader : LineReader) : EStateM.Result InputFault LineReader String :=
  match reader with
  | ⟨stream, token :: pending⟩ => .ok token ⟨stream, pending⟩
  | ⟨stream, []⟩ =>
    match _hLine : Chunk.takeLine [] stream with
    | .error message rest => .error (.stream message) ⟨rest, []⟩
    | .ok [] rest => .error .exhausted ⟨rest, []⟩
    | .ok (byte :: bytes) rest =>
      match String.fromUTF8? (byte :: bytes).toByteArray with
      | none => .error (.stream notUtf8) ⟨rest, []⟩
      | some line => nextToken ⟨rest, Text.words line⟩
termination_by Chunk.weight reader.stream
decreasing_by
  have hBound := Chunk.weight_takeLine_le [] _ _ _ _hLine
  simp only [List.length_cons, List.length_nil] at hBound
  omega

def read : EStateM InputFault LineReader Word := fun reader =>
  match nextToken reader with
  | .error fault reader => .error fault reader
  | .ok token reader =>
    match readToken token with
    | .ok value => .ok value reader
    | .error fault => .error fault reader

end LineReader

instance : InputDevice LineReader := ⟨LineReader.read⟩

instance (ι κ : Type) [InputDevice ι] [InputDevice κ] : InputDevice (ι ⊕ κ) where
  read
    | .inl device =>
      match InputDevice.read device with
      | .ok value device => .ok value (.inl device)
      | .error fault device => .error fault (.inl device)
    | .inr device =>
      match InputDevice.read device with
      | .ok value device => .ok value (.inr device)
      | .error fault device => .error fault (.inr device)

end Accumulator
