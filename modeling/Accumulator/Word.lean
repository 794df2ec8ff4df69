/-! # Machine words

The accumulator and every variable hold a signed 64-bit word. Sums, differences and products
wrap at 64 bits and are then reduced to the six decimal digits of the machine; quotients are
not reduced.
-/

namespace Accumulator

set_option autoImplicit false

abbrev Word : Type := Int64

namespace Word

/-- Reduced words have an absolute value below this. -/
def modulus : Word := 1000000

/-- The remainder by `modulus`, with the sign of `value`. -/
def reduce (value : Word) : Word :=
  value % modulus

def sum (left right : Word) : Word :=
  reduce (left + right)

def difference (left right : Word) : Word :=
  reduce (left - right)

def product (left right : Word) : Word :=
  reduce (left * right)

/-- The quotient truncated toward zero, when the divisor is not zero and the quotient is a word. -/
def quotient? (dividend divisor : Word) : Option Word :=
  if divisor = 0 ∨ (dividend = Int64.minValue ∧ divisor = -1) then none
  else some (dividend / divisor)

end Word

end Accumulator
