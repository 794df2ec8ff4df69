import Accumulator.Program

/-! # Listings

A listing numbers the lines from one. The digits that a number has beyond the first are taken
out of the label column, as far as there is room.
-/

namespace Accumulator.Program

set_option autoImplicit false

/-- The width of the label column behind a line number. -/
def columnWidth (program : Program) (number : Nat) : Nat :=
  program.labelWidth - (Decimal.width number - 1)

/-- What a line of the listing shows behind its number, if there is an instruction for it. -/
def row? (program : Program) (index : Nat) : Except Crash (Option String) :=
  match program.get? index with
  | some instruction => some <$> instruction.render (program.columnWidth (index + 1))
  | none => .ok none

/-- A line of the listing, if there is an instruction for it. -/
def line? (program : Program) (index : Nat) : Except Crash (Option String) := do
  let row ← program.row? index
  return row.map fun row => Decimal.ofNat (index + 1) ++ ": " ++ row

/-- The lines of the listing. -/
def lines (program : Program) : Except Crash (List String) :=
  (List.range program.size).filterMapM program.line?

/-- The whole listing, each line with a line feed behind it. -/
def listing (program : Program) : Except Crash String := do
  let lines ← program.lines
  return String.join (lines.map fun line => line ++ "\n")

end Accumulator.Program
