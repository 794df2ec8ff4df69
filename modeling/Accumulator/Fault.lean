import Accumulator.Text.Decimal

/-! # Faults

Everything that can stop a program from being parsed, built or run, with its cause as data.
The wording shown to a user is `Fault.message`. A fault is returned to the caller. A crash is not:
it aborts the host program.
-/

namespace Accumulator

set_option autoImplicit false

/-- The line that was executing when a fault arose. -/
structure Site where
  /-- The index of the instruction in its program, from zero. -/
  index : Nat
  text : String
  deriving DecidableEq, Repr

def Site.describe (site : Site) : String :=
  "@" ++ Decimal.ofNat site.index ++ ": " ++ site.text

inductive FaultClass where
  /-- A line that has not the shape of an instruction. -/
  | malformed
  /-- A word in the place of an operation that names none. -/
  | unknownOpcode
  | validation
  /-- A failure that depends on the data of a run. -/
  | runtime
  | device
  deriving DecidableEq, Repr

inductive Fault where
  | invalidLine (line : String)
  | unknownOpcode (word : String)
  /-- The index is that of the second definition. -/
  | duplicateLabel (label : String) (index : Nat)
  | undefinedBranch (label : String) (index : Nat)
  | undefinedVariable (name : String) (site : Site)
  | invalidNumber (literal : String) (site : Site)
  | divisionByZero (operand : String) (site : Site)
  | inputExhausted (site : Site)
  | stepLimitExceeded (limit : UInt64) (site : Site)
  | device (message : String)
  deriving DecidableEq, Repr

namespace Fault

def faultClass : Fault → FaultClass
  | invalidLine _ => .malformed
  | unknownOpcode _ => .unknownOpcode
  | duplicateLabel _ _ | undefinedBranch _ _ => .validation
  | undefinedVariable _ _ | invalidNumber _ _ | divisionByZero _ _ | inputExhausted _
  | stepLimitExceeded _ _ => .runtime
  | device _ => .device

def site? : Fault → Option Site
  | undefinedVariable _ site | invalidNumber _ site | divisionByZero _ site
  | inputExhausted site | stepLimitExceeded _ site => some site
  | invalidLine _ | unknownOpcode _ | duplicateLabel _ _ | undefinedBranch _ _ | device _ => none

def index? : Fault → Option Nat
  | duplicateLabel _ index | undefinedBranch _ index => some index
  | fault => fault.site?.map Site.index

/-- A fault of the program text, found before it is run. -/
def isStatic (fault : Fault) : Bool :=
  match fault.faultClass with
  | .malformed | .unknownOpcode | .validation => true
  | .runtime | .device => false

def message : Fault → String
  | invalidLine line => "invalid line: " ++ line
  | unknownOpcode word => word ++ " is not a valid op code"
  | duplicateLabel label _ => "duplicate label " ++ label
  | undefinedBranch label _ => "undefined branch " ++ label
  | undefinedVariable name site => "undefined loc " ++ name ++ " " ++ site.describe
  | invalidNumber literal site => literal ++ " is not a valid number " ++ site.describe
  | divisionByZero operand site => "division by zero in " ++ operand ++ " " ++ site.describe
  | inputExhausted site => "input exhausted " ++ site.describe
  | stepLimitExceeded limit site =>
    "step limit of " ++ Decimal.ofNat limit.toNat ++ " exceeded " ++ site.describe
  | device text => "i/o error: " ++ text

end Fault

/-- The host program is aborted because a text was to fill up a width that it cannot fill. -/
structure Crash where
  width : Nat
  deriving DecidableEq, Repr

/-- What ends a computation before its result is there. -/
inductive Failure where
  | fault (fault : Fault)
  | crash (crash : Crash)
  deriving DecidableEq, Repr

def FaultClass.name : FaultClass → String
  | .malformed => "Syntax"
  | .unknownOpcode => "UnknownOpcode"
  | .validation => "Validation"
  | .runtime => "Runtime"
  | .device => "Io"

end Accumulator
