import Accumulator.Word

/-! # Exact arithmetic on reduced words

Reduced words are so small that their sums, differences and products fit into a word, so the
only thing that is lost is what the modulus takes away. Quotients of reduced words are reduced
and exact.
-/

namespace Accumulator.Word

set_option autoImplicit false

/-- A word strictly between minus and plus the modulus. -/
def Reduced (value : Word) : Prop :=
  -1000000 < value.toInt ∧ value.toInt < 1000000

instance (value : Word) : Decidable (Reduced value) :=
  inferInstanceAs (Decidable (_ ∧ _))

theorem toInt_reduce (value : Word) : (reduce value).toInt = value.toInt.tmod 1000000 :=
  Int64.toInt_mod value modulus

theorem reduced_reduce (value : Word) : Reduced (reduce value) := by
  rw [Reduced, toInt_reduce]
  exact ⟨Int.lt_tmod_of_pos _ (by decide), Int.tmod_lt_of_pos _ (by decide)⟩

theorem reduce_eq_self {value : Word} (h : Reduced value) : reduce value = value := by
  obtain ⟨hLower, hUpper⟩ := h
  apply Int64.toInt_inj.mp
  rw [toInt_reduce]
  rcases Int.le_total 0 value.toInt with hSign | hSign
  · exact Int.tmod_eq_of_lt hSign hUpper
  · rw [← Int.neg_inj, ← Int.neg_tmod]
    exact Int.tmod_eq_of_lt (by omega) (by omega)

/-- A reduced word is the truncating remainder of an integer by the modulus. -/
structure Remainder (exact : Int) (result : Word) : Prop where
  toInt_eq : result.toInt = exact.tmod 1000000
  congruent : (1000000 : Int) ∣ exact - result.toInt
  reduced : Reduced result
  sign : result.toInt = 0 ∨ result.toInt.sign = exact.sign

theorem remainder_reduce {value : Word} {exact : Int} (h : value.toInt = exact) :
    Remainder exact (reduce value) := by
  subst h
  refine ⟨toInt_reduce value, ?_, reduced_reduce value, ?_⟩
  · rw [toInt_reduce]
    exact Int.dvd_self_sub_tmod
  · rw [toInt_reduce, Int.sign_tmod]
    split
    · rename_i hDvd
      exact .inl (Int.tmod_eq_zero_of_dvd hDvd)
    · exact .inr rfl

theorem bmod_eq_self {exact : Int} (hLower : -0x8000000000000000 ≤ exact)
    (hUpper : exact < 0x8000000000000000) : exact.bmod 0x10000000000000000 = exact :=
  Int.bmod_eq_of_le (by omega) (by omega)

theorem toInt_add_of_reduced {left right : Word} (hLeft : Reduced left) (hRight : Reduced right) :
    (left + right).toInt = left.toInt + right.toInt := by
  obtain ⟨_, _⟩ := hLeft
  obtain ⟨_, _⟩ := hRight
  rw [Int64.toInt_add]
  exact bmod_eq_self (by omega) (by omega)

theorem toInt_sub_of_reduced {left right : Word} (hLeft : Reduced left) (hRight : Reduced right) :
    (left - right).toInt = left.toInt - right.toInt := by
  obtain ⟨_, _⟩ := hLeft
  obtain ⟨_, _⟩ := hRight
  rw [Int64.toInt_sub]
  exact bmod_eq_self (by omega) (by omega)

theorem toInt_mul_of_reduced {left right : Word} (hLeft : Reduced left) (hRight : Reduced right) :
    (left * right).toInt = left.toInt * right.toInt := by
  obtain ⟨_, _⟩ := hLeft
  obtain ⟨_, _⟩ := hRight
  have hLeftAbs : left.toInt.natAbs ≤ 1000000 := by omega
  have hRightAbs : right.toInt.natAbs ≤ 1000000 := by omega
  have hProduct : (left.toInt * right.toInt).natAbs ≤ 1000000 * 1000000 := by
    rw [Int.natAbs_mul]
    exact Nat.mul_le_mul hLeftAbs hRightAbs
  rw [Int64.toInt_mul]
  exact bmod_eq_self (by omega) (by omega)

theorem ne_minValue_of_reduced {value : Word} (h : Reduced value) : value ≠ Int64.minValue := by
  rintro rfl
  exact absurd h (by decide)

theorem quotient?_of_reduced {dividend divisor : Word} (h : Reduced dividend) :
    quotient? dividend divisor = if divisor = 0 then none else some (dividend / divisor) := by
  simp [quotient?, ne_minValue_of_reduced h]

theorem toInt_div_of_reduced {dividend divisor : Word} (h : Reduced dividend) :
    (dividend / divisor).toInt = dividend.toInt.tdiv divisor.toInt :=
  Int64.toInt_div_of_ne_left dividend divisor (ne_minValue_of_reduced h)

theorem reduced_quotient {dividend divisor quotient : Word} (hDividend : Reduced dividend)
    (h : quotient? dividend divisor = some quotient) : Reduced quotient := by
  rw [quotient?_of_reduced hDividend] at h
  split at h
  · cases h
  · cases h
    have hAbs := Int.natAbs_tdiv_le_natAbs dividend.toInt divisor.toInt
    rw [Reduced, toInt_div_of_reduced hDividend]
    obtain ⟨_, _⟩ := hDividend
    omega

/-- On these two words no operation wraps, and each gives the exact result up to the modulus. -/
structure Exact (left right : Word) : Prop where
  add : (left + right).toInt = left.toInt + right.toInt
  sub : (left - right).toInt = left.toInt - right.toInt
  mul : (left * right).toInt = left.toInt * right.toInt
  sum : Remainder (left.toInt + right.toInt) (sum left right)
  difference : Remainder (left.toInt - right.toInt) (difference left right)
  product : Remainder (left.toInt * right.toInt) (product left right)
  quotient_none : quotient? left right = none ↔ right = 0
  quotient_some : right ≠ 0 → ∃ quotient, quotient? left right = some quotient ∧
    quotient.toInt = left.toInt.tdiv right.toInt

theorem exact_of_reduced {left right : Word} (hLeft : Reduced left) (hRight : Reduced right) :
    Exact left right where
  add := toInt_add_of_reduced hLeft hRight
  sub := toInt_sub_of_reduced hLeft hRight
  mul := toInt_mul_of_reduced hLeft hRight
  sum := remainder_reduce (toInt_add_of_reduced hLeft hRight)
  difference := remainder_reduce (toInt_sub_of_reduced hLeft hRight)
  product := remainder_reduce (toInt_mul_of_reduced hLeft hRight)
  quotient_none := by
    rw [quotient?_of_reduced hLeft]
    split <;> simp_all
  quotient_some hDivisor := by
    rw [quotient?_of_reduced hLeft, if_neg hDivisor]
    exact ⟨_, rfl, toInt_div_of_reduced hLeft⟩

end Accumulator.Word
