import Accumulator.CommandLine.Arguments
import Accumulator.Machine.Run
import Accumulator.Source

/-! # The command

What the command writes and how it exits, given its arguments, the files it can read and its
standard input. If it crashes, the host tells so on the standard error stream, in words that are
the host's own.
-/

namespace Accumulator.CommandLine

set_option autoImplicit false

structure Reply where
  exit : UInt32
  stdout : ByteArray
  stderr : String

namespace Reply

def help : Reply :=
  ⟨0, (usage ++ "\n").toByteArray, ""⟩

/-- The answer to arguments that make no request. Help asked for behind a command goes to the
standard output. -/
def ofUsageFault : UsageFault → Reply
  | .helpWanted => ⟨1, (usage ++ "\n").toByteArray, ""⟩
  | fault => ⟨1, ByteArray.empty, "error: " ++ fault.message ++ "\n" ++ usage ++ "\n"⟩

def ofReport (stdout : ByteArray) (report : Report) : Reply :=
  ⟨1, stdout, report.diagnostic ++ "\n"⟩

/-- The exit code of a command that has crashed is that of the host. -/
def ofCrash (notice : Crash → String) (stdout : ByteArray) (crash : Crash) : Reply :=
  ⟨101, stdout, notice crash⟩

def ofRun {ι : Type} (notice : Crash → String) (file : SourceFile) :
    Execution.RunResult ι Sink → Reply
  | .ok _ session => ⟨0, session.output.written, ""⟩
  | .error (.fault fault) session => ofReport session.output.written (file.locate fault)
  | .error (.crash crash) session => ofCrash notice session.output.written crash

end Reply

def loadProgram (path : ByteArray) (content : Except FileFault ByteArray) :
    Except Report (SourceFile × Program) := do
  let file ← SourceFile.load path content
  return (file, ← file.build)

def openSession (stdin : List Chunk) : Session LineReader Sink :=
  ⟨{}, ⟨stdin, []⟩, {}⟩

section Commands

variable (notice : Crash → String)

/-- Runs the program under a path, and gives none if that takes more than `fuel` steps. -/
def runFile (fuel : Nat) (config : Config) (path : ByteArray)
    (content : Except FileFault ByteArray) (stdin : List Chunk) : Option Reply :=
  match loadProgram path content with
  | .error report => some (.ofReport ByteArray.empty report)
  | .ok (file, program) =>
    (Execution.run fuel config program (openSession stdin)).map (Reply.ofRun notice file)

def listFile (path : ByteArray) (content : Except FileFault ByteArray) : Reply :=
  match loadProgram path content with
  | .error report => .ofReport ByteArray.empty report
  | .ok (_, program) =>
    match program.listing with
    | .ok text => ⟨0, text.toByteArray, ""⟩
    | .error crash => .ofCrash notice ByteArray.empty crash

/-- Executes the command, and gives none if a program takes more than `fuel` steps. -/
def execute (fuel : Nat) (readFile : ByteArray → Except FileFault ByteArray)
    (arguments : List ByteArray) (stdin : List Chunk) : Option Reply :=
  match parse arguments with
  | .error fault => some (.ofUsageFault fault)
  | .ok .help => some .help
  | .ok (.run path config) => runFile notice fuel config path (readFile path) stdin
  | .ok (.list path) => some (listFile notice path (readFile path))

end Commands

end Accumulator.CommandLine
