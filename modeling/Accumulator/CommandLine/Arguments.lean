import Accumulator.Machine.State
import Accumulator.Text.Decimal
import Accumulator.Text.Lossy

/-! # Command line arguments

Arguments are bytes and are compared by their text. Options and the path may come in any order;
of several step limits the last one counts.
-/

namespace Accumulator.CommandLine

set_option autoImplicit false

inductive Request where
  | help
  | run (path : ByteArray) (config : Config)
  | list (path : ByteArray)

inductive UsageFault where
  | missingCommand
  | unknownCommand (text : String)
  /-- Help was asked for behind a command. -/
  | helpWanted
  | missingStepCount
  | invalidStepCount (text : String)
  | unknownOption (text : String)
  | secondPath
  | missingPath
  deriving DecidableEq, Repr

def usage : String :=
  String.join [
    "Usage: aal <command> [options]\n",
    "\n",
    "Commands:\n",
    "  run  <input> [--verbose] [--max-steps <n>]  Execute a program\n",
    "  list <input>                                Print the aligned listing\n",
    "\n",
    "Options:\n",
    "  -v, --verbose        Trace every instruction (run only)\n",
    "  --max-steps <n>      Abort after n executed instructions (run only)\n",
    "  -h, --help           Show this help message\n",
    "\n",
    "READ takes integers from stdin; PRINT writes to stdout.\n",
    "Set RUST_LOG=debug for interpreter logs on stderr.\n",
    "\n",
    "Examples:\n",
    "  aal run factorial.aal\n",
    "  echo 5 | aal run factorial.aal --verbose\n",
    "  aal list factorial.aal\n"]

def UsageFault.message : UsageFault → String
  | missingCommand => "missing command"
  | unknownCommand text => "unknown command: " ++ text
  | helpWanted => usage
  | missingStepCount => "missing value for --max-steps"
  | invalidStepCount text => "invalid step count: " ++ text
  | unknownOption text => "unknown option: " ++ text
  | secondPath => "multiple input paths provided"
  | missingPath => "missing input path"

def isHelp (text : String) : Bool :=
  text == "--help" || text == "-h"

def isVerbose (text : String) : Bool :=
  text == "--verbose" || text == "-v"

def isOption (text : String) : Bool :=
  text.toList.head? == some '-'

/-- What has been read of the arguments of `run`. -/
structure RunArguments where
  path : Option ByteArray := none
  config : Config := {}

def parseRun (seen : RunArguments) : List ByteArray → Except UsageFault Request
  | [] =>
    match seen.path with
    | some path => .ok (.run path seen.config)
    | none => .error .missingPath
  | argument :: rest =>
    let text := Text.lossy argument
    if isHelp text then .error .helpWanted
    else if isVerbose text then
      parseRun { seen with config := { seen.config with verbose := true } } rest
    else if text == "--max-steps" then
      match rest with
      | [] => .error .missingStepCount
      | value :: rest =>
        match Decimal.uint64? (Text.lossy value) with
        | some limit =>
          parseRun { seen with config := { seen.config with stepLimit := some limit } } rest
        | none => .error (.invalidStepCount (Text.lossy value))
    else if isOption text then .error (.unknownOption text)
    else if seen.path.isSome then .error .secondPath
    else parseRun { seen with path := some argument } rest

def parseList (path : Option ByteArray) : List ByteArray → Except UsageFault Request
  | [] =>
    match path with
    | some path => .ok (.list path)
    | none => .error .missingPath
  | argument :: rest =>
    let text := Text.lossy argument
    if isHelp text then .error .helpWanted
    else if isOption text then .error (.unknownOption text)
    else if path.isSome then .error .secondPath
    else parseList (some argument) rest

def parse : List ByteArray → Except UsageFault Request
  | [] => .error .missingCommand
  | command :: rest =>
    let text := Text.lossy command
    if isHelp text then .ok .help
    else if text == "run" then parseRun {} rest
    else if text == "list" then parseList none rest
    else .error (.unknownCommand text)

end Accumulator.CommandLine
