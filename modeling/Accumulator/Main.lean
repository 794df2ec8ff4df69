import Accumulator.CommandLine.Execute

/-! # The program

Connects the command to the files and the standard streams. A run is stepped here so that a
prompt is on the screen before its answer is waited for.
-/

namespace Accumulator.CommandLine

set_option autoImplicit false

def fileFault : IO.Error → FileFault
  | .noFileOrDirectory .. => .missing
  | .inappropriateType _ 21 _ => .isDirectory
  | .inappropriateType .. => .notDirectory
  | .permissionDenied .. => .other "Permission denied (os error 13)"
  | error => .other (toString error)

def readPath (path : ByteArray) : IO (Except FileFault ByteArray) := do
  try
    return .ok (← IO.FS.readBinFile (Text.lossy path))
  catch error =>
    return .error (fileFault error)

/-- Reads a line of bytes; there is none at the end of the stream. -/
partial def readLine (stream : IO.FS.Stream) (held : List UInt8) : IO (List UInt8) := do
  match (← stream.read 1).toList with
  | [] => return held.reverse
  | byte :: _ =>
    if byte == Chunk.lineFeed then return (byte :: held).reverse else readLine stream (byte :: held)

/-- Prints what a session has written beyond its first `shown` bytes. -/
def printFrom (shown : Nat) (session : Session LineReader Sink) : IO Nat := do
  let written := session.output.written
  (← IO.getStdout).write (written.extract shown written.size)
  return written.size

/-- Runs a program. A step that finds no input is tried again once there is another line. -/
partial def converse (config : Config) (program : Program) (shown : Nat)
    (session : Session LineReader Sink) : IO (Execution.RunResult LineReader Sink) := do
  match Execution.step config program session with
  | .ok .running next => converse config program (← printFrom shown next) next
  | .ok (.finished termination) next =>
    discard <| printFrom shown next
    return Execution.conclude (.ok ⟨next.state.steps, termination⟩ next)
  | .error failure next =>
    let shown ← printFrom shown next
    (← IO.getStdout).flush
    match failure with
    | .fault (.inputExhausted _) =>
      let line ← readLine (← IO.getStdin) []
      if line.isEmpty then
        return Execution.conclude (.error failure next)
      else
        converse config program shown { session with input := ⟨[.data line], []⟩ }
    | _ => return Execution.conclude (.error failure next)

def crashNotice (crash : Crash) : String :=
  "no text can be filled up to a width of " ++ Decimal.ofNat crash.width ++ "\n"

def finish (reply : Reply) : IO UInt32 := do
  (← IO.getStdout).write reply.stdout
  (← IO.getStdout).flush
  (← IO.getStderr).putStr reply.stderr
  return reply.exit

def start (arguments : List String) : IO UInt32 := do
  match parse (arguments.map String.toByteArray) with
  | .error fault => finish (.ofUsageFault fault)
  | .ok .help => finish .help
  | .ok (.list path) => finish (listFile crashNotice path (← readPath path))
  | .ok (.run path config) =>
    match loadProgram path (← readPath path) with
    | .error report => finish (.ofReport ByteArray.empty report)
    | .ok (file, program) =>
      let result ← converse config program 0 (openSession [])
      finish { Reply.ofRun crashNotice file result with stdout := ByteArray.empty }

end Accumulator.CommandLine

def main (arguments : List String) : IO UInt32 :=
  Accumulator.CommandLine.start arguments
