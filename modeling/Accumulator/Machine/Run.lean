import Accumulator.Machine.Step

/-! # Runs

A run starts from the zero state and steps until the program ends or fails. The output device
is flushed at the end of every run that returns; a failed flush shows only where the run itself
did not fail. A run need not end, so it is given a bound on the number of steps to try.
-/

namespace Accumulator.Execution

set_option autoImplicit false

variable {ι ω : Type} [InputDevice ι] [OutputDevice ω]

/-- What a finished run gives: an outcome or a failure, and the session it leaves behind. -/
abbrev RunResult (ι ω : Type) : Type := EStateM.Result Failure (Session ι ω) RunOutcome

/-- Steps until the program ends or fails, and gives none if that takes more than `fuel`
steps. -/
def iterate (config : Config) (program : Program) : Nat → Session ι ω → Option (RunResult ι ω)
  | 0, _ => none
  | fuel + 1, session =>
    match step config program session with
    | .ok .running session => iterate config program fuel session
    | .ok (.finished termination) session =>
      some (.ok ⟨session.state.steps, termination⟩ session)
    | .error failure session => some (.error failure session)

def conclude : RunResult ι ω → RunResult ι ω
  | .ok outcome session =>
    match onOutput OutputDevice.flush session with
    | .ok _ session => .ok outcome session
    | .error failure session => .error failure session
  | .error (.fault fault) session =>
    match onOutput OutputDevice.flush session with
    | .ok _ session | .error _ session => .error (.fault fault) session
  | .error (.crash crash) session => .error (.crash crash) session

def restart (session : Session ι ω) : Session ι ω :=
  { session with state := {} }

/-- Runs a program from the zero state, and gives none if it takes more than `fuel` steps. -/
def run (fuel : Nat) (config : Config) (program : Program) (session : Session ι ω) :
    Option (RunResult ι ω) :=
  (iterate config program fuel (restart session)).map conclude

end Accumulator.Execution
