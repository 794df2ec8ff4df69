import Accumulator.Word

/-! # Decimal numbers as text

Numbers are written without leading zeros, a negative one with a minus sign. They are read as
an optional sign followed by one or more ASCII digits, leading zeros allowed, and refused
outside the width asked for.
-/

namespace Accumulator.Decimal

set_option autoImplicit false

def ofNat (n : Nat) : String :=
  String.ofList (Nat.toDigits 10 n)

def ofInt : Int → String
  | .ofNat n => ofNat n
  | .negSucc n => "-" ++ ofNat (n + 1)

def ofWord (value : Word) : String :=
  ofInt value.toInt

def width (n : Nat) : Nat :=
  (Nat.toDigits 10 n).length

/-- The value of a non-empty run of digits. -/
def digits? (text : List Char) : Option Nat :=
  if text ≠ [] ∧ text.all Char.isDigit then some (Nat.ofDigitChars 10 text 0) else none

/-- The value of a run of digits behind at most one plus sign. -/
def natural? : List Char → Option Nat
  | '+' :: text => digits? text
  | text => digits? text

/-- The value of a run of digits behind at most one sign. -/
def integer? : List Char → Option Int
  | '-' :: text => (digits? text).map fun n => -(n : Int)
  | text => (natural? text).map fun n => (n : Int)

/-- Reads an integer of 32 bits. -/
def int32? (text : String) : Option Int :=
  (integer? text.toList).filter fun n =>
    decide (Int32.minValue.toInt ≤ n ∧ n ≤ Int32.maxValue.toInt)

/-- Reads a natural number of 64 bits. -/
def uint64? (text : String) : Option UInt64 :=
  ((natural? text.toList).filter fun n => decide (n < UInt64.size)).map UInt64.ofNat

theorem isDigit_of_mem_toDigits (n : Nat) (c : Char) (h : c ∈ Nat.toDigits 10 n) :
    c.isDigit = true :=
  Nat.isDigit_of_mem_toDigits (by decide) (by decide) h

theorem digits?_toDigits (n : Nat) : digits? (Nat.toDigits 10 n) = some n := by
  have hDigits : (Nat.toDigits 10 n).all Char.isDigit = true :=
    List.all_eq_true.mpr (isDigit_of_mem_toDigits n)
  have hValue : Nat.ofDigitChars 10 (Nat.toDigits 10 n) 0 = n :=
    Nat.ofDigitChars_toDigits (by decide) (by decide)
  rw [digits?, if_pos ⟨Nat.toDigits_ne_nil, hDigits⟩, hValue]

theorem natural?_toDigits (n : Nat) : natural? (Nat.toDigits 10 n) = some n := by
  have hRead := digits?_toDigits n
  unfold natural?
  split
  · rename_i text hText
    exact absurd (isDigit_of_mem_toDigits n '+' (hText ▸ List.mem_cons_self)) (by decide)
  · exact hRead

theorem integer?_ofInt (n : Int) : integer? (ofInt n).toList = some n := by
  cases n with
  | ofNat n =>
    simp only [ofInt, ofNat, String.toList_ofList]
    unfold integer?
    split
    · rename_i text hText
      exact absurd (isDigit_of_mem_toDigits n '-' (hText ▸ List.mem_cons_self)) (by decide)
    · rw [natural?_toDigits]
      rfl
  | negSucc n =>
    have hText : (ofInt (Int.negSucc n)).toList = '-' :: Nat.toDigits 10 (n + 1) := by
      simp [ofInt, ofNat, String.toList_append]
    rw [hText, integer?, digits?_toDigits]
    rfl

end Accumulator.Decimal
