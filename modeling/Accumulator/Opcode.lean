/-! # Operation codes

The fourteen operations of the machine, their mnemonics and what a line with each of them
carries. A mnemonic is recognised whatever the case of its letters.
-/

namespace Accumulator

set_option autoImplicit false

inductive Opcode where
  | load
  | store
  | add
  | subtract
  | multiply
  | divide
  | branchIfZero
  | branchIfPositive
  | branchIfNegative
  | branchAlways
  | halt
  | read
  | print
  | declare
  deriving DecidableEq, Repr

namespace Opcode

/-- Every operation, in the order of the mnemonic table. -/
def all : List Opcode :=
  [load, store, add, subtract, multiply, divide, branchIfZero, branchIfPositive,
    branchIfNegative, branchAlways, halt, read, print, declare]

def mnemonic : Opcode → String
  | load => "LOAD"
  | store => "STORE"
  | add => "ADD"
  | subtract => "SUB"
  | multiply => "MULT"
  | divide => "DIV"
  | branchIfZero => "BE"
  | branchIfPositive => "BG"
  | branchIfNegative => "BL"
  | branchAlways => "BU"
  | halt => "END"
  | read => "READ"
  | print => "PRINT"
  | declare => "DC"

/-- Equality of texts up to the case of ASCII letters. -/
def sameLetters (left right : String) : Bool :=
  left.toList.map Char.toUpper == right.toList.map Char.toUpper

def ofMnemonic? (word : String) : Option Opcode :=
  all.find? fun opcode => sameLetters opcode.mnemonic word

/-- The operations whose operand is a label to jump to. -/
def isBranch : Opcode → Bool
  | branchIfZero | branchIfPositive | branchIfNegative | branchAlways => true
  | _ => false

/-- Whether a line with this operation has an operand; only `END` has none. -/
def takesOperand (opcode : Opcode) : Bool :=
  opcode != halt

theorem takesOperand_eq_true_iff {opcode : Opcode} :
    opcode.takesOperand = true ↔ opcode ≠ halt := by
  simp [takesOperand]

theorem ne_halt_of_isBranch {opcode : Opcode} (h : opcode.isBranch = true) : opcode ≠ halt := by
  rintro rfl
  cases h

theorem ofMnemonic?_mnemonic (opcode : Opcode) : ofMnemonic? opcode.mnemonic = some opcode := by
  cases opcode <;> decide +kernel

theorem map_toUpper_mnemonic (opcode : Opcode) :
    opcode.mnemonic.toList.map Char.toUpper = opcode.mnemonic.toList := by
  cases opcode <;> rfl

/-- A word names the operation whose mnemonic it is in capital letters. -/
theorem ofMnemonic?_eq_some_iff {word : String} {opcode : Opcode} :
    ofMnemonic? word = some opcode ↔ word.toList.map Char.toUpper = opcode.mnemonic.toList := by
  constructor
  · intro h
    have hSame := List.find?_some h
    rw [sameLetters, beq_iff_eq, map_toUpper_mnemonic] at hSame
    exact hSame.symm
  · intro h
    rw [← ofMnemonic?_mnemonic opcode]
    simp only [ofMnemonic?, sameLetters, h, map_toUpper_mnemonic]

end Opcode

end Accumulator
