import Accumulator.Program
import Accumulator.Text.Lossy

/-! # Source files

Vacant lines of a file are dropped before it is built, so an instruction's index is not its
line number. Every line that is kept remembers its number, and reports name lines of the file.
-/

namespace Accumulator

set_option autoImplicit false

structure SourceLine where
  /-- The number of the line in the file, from one. -/
  number : Nat
  text : String
  deriving DecidableEq, Repr

structure SourceFile where
  path : String
  lines : List SourceLine
  deriving DecidableEq, Repr

structure Location where
  path : String
  line : Nat
  deriving DecidableEq, Repr

def Location.describe (location : Location) : String :=
  location.path ++ ":" ++ Decimal.ofNat location.line

inductive FileFault where
  | missing
  | isDirectory
  | notDirectory
  | nameTooLong
  | notUtf8
  | other (text : String)
  deriving DecidableEq, Repr

def FileFault.message : FileFault → String
  | missing => "No such file or directory (os error 2)"
  | isDirectory => "Is a directory (os error 21)"
  | notDirectory => "Not a directory (os error 20)"
  | nameTooLong => "File name too long (os error 36)"
  | notUtf8 => "stream did not contain valid UTF-8"
  | other text => text

inductive Cause where
  | program (fault : Fault)
  | file (text : String)
  deriving DecidableEq, Repr

def Cause.faultClass : Cause → FaultClass
  | program fault => fault.faultClass
  | file _ => .device

def Cause.message : Cause → String
  | program fault => fault.message
  | file text => "I/O error: " ++ text

/-- A cause with the line of the file that it is about, where there is one. -/
structure Report where
  cause : Cause
  location : Option Location := none
  deriving DecidableEq, Repr

namespace Report

/-- The report without a mark that it is an error. -/
def message (report : Report) : String :=
  match report.location with
  | some location => location.describe ++ ": " ++ report.cause.message
  | none => report.cause.message

/-- The report as a user gets to see it. -/
def diagnostic (report : Report) : String :=
  match report.location with
  | some location => location.describe ++ ": error: " ++ report.cause.message
  | none => "error: " ++ report.cause.message

end Report

namespace SourceFile

/-- Keeps the lines of a text that are not vacant. -/
def ofText (path text : String) : SourceFile :=
  ⟨path, ((Text.lines text).zipIdx 1).filterMap fun (line, number) =>
    if Text.isVacant line then none else some ⟨number, line⟩⟩

def load (path : ByteArray) (content : Except FileFault ByteArray) : Except Report SourceFile :=
  let name := Text.lossy path
  let decoded := content.bind fun bytes =>
    match String.fromUTF8? bytes with
    | some text => .ok text
    | none => .error .notUtf8
  match decoded with
  | .ok text => .ok (ofText name text)
  | .error fault => .error ⟨.file ("cannot read " ++ name ++ ": " ++ fault.message), none⟩

def location? (file : SourceFile) (index : Nat) : Option Location :=
  file.lines[index]?.map fun line => ⟨file.path, line.number⟩

/-- Reports a fault of the program, at its line if it has one. -/
def locate (file : SourceFile) (fault : Fault) : Report :=
  ⟨.program fault, fault.index?.bind file.location?⟩

def parseLine (file : SourceFile) (line : SourceLine) : Except Report Instruction :=
  match Instruction.parse line.text with
  | .ok instruction => .ok instruction
  | .error fault => .error ⟨.program fault, some ⟨file.path, line.number⟩⟩

def build (file : SourceFile) : Except Report Program := do
  let instructions ← file.lines.mapM file.parseLine
  match Program.build instructions with
  | .ok program => .ok program
  | .error fault => .error (file.locate fault)

end SourceFile

end Accumulator
