import Accumulator.Proofs.Device.Readings
import Accumulator.Proofs.Word.Exact

/-! # Printed values as input

Values are printed in decimal, each on a line of its own. A printed value is a single word, whatever
white space comes behind the last line, and a reduced one is a number of 32 bits. So a script of
printed values gives these values again, in order and unchanged, and nothing else.
-/

namespace Accumulator

set_option autoImplicit false

def printout (values : List Word) : String :=
  String.join (values.map fun value => Decimal.ofWord value ++ "\n")

theorem printout_nil : printout [] = "" := rfl

theorem printout_cons (value : Word) (values : List Word) :
    printout (value :: values) = Decimal.ofWord value ++ "\n" ++ printout values := by
  simp [printout, String.join_cons]

theorem printout_singleton (value : Word) : printout [value] = Decimal.ofWord value ++ "\n" := by
  simp [printout]

theorem printout_append (first rest : List Word) :
    printout (first ++ rest) = printout first ++ printout rest := by
  simp [printout]

namespace Decimal

theorem isSpace_eq_false_of_isDigit {c : Char} (h : c.isDigit = true) : Text.isSpace c = false := by
  have hRange : 48 ≤ c.toNat ∧ c.toNat ≤ 57 := Char.isDigit_iff_toNat.mp h
  simp only [Text.isSpace, Text.whiteSpace, List.any_cons, List.any_nil, Bool.or_false,
    Bool.or_eq_false_iff, Bool.and_eq_false_iff, decide_eq_false_iff_not]
  omega

theorem isRun_ofNat (n : Nat) : Text.IsRun Text.isSpace (ofNat n) := by
  constructor
  · intro hEmpty
    have hNil : Nat.toDigits 10 n = [] := by simpa [ofNat] using congrArg String.toList hEmpty
    exact Nat.toDigits_ne_nil hNil
  · intro c hMem
    rw [ofNat, String.toList_ofList] at hMem
    exact isSpace_eq_false_of_isDigit (isDigit_of_mem_toDigits n c hMem)

theorem isRun_ofWord (value : Word) : Text.IsRun Text.isSpace (ofWord value) := by
  unfold ofWord ofInt
  split
  · exact isRun_ofNat _
  · rename_i n _
    obtain ⟨_, hFree⟩ := isRun_ofNat (n + 1)
    constructor
    · simp
    · rw [String.toList_append]
      exact List.forall_mem_cons.mpr ⟨by decide, hFree⟩

theorem int32?_ofWord {value : Word} (h : Word.Reduced value) :
    int32? (ofWord value) = some value.toInt := by
  obtain ⟨hLower, hUpper⟩ := h
  have hMin : Int32.minValue.toInt = -2147483648 := rfl
  have hMax : Int32.maxValue.toInt = 2147483647 := rfl
  rw [int32?, ofWord, integer?_ofInt, Option.filter_some, if_pos]
  simp only [decide_eq_true_eq]
  omega

end Decimal

theorem words_printout (values : List Word) {ending : String}
    (hEnding : ending.toList.all Text.isSpace = true) :
    Text.words (printout values ++ ending) = values.map Decimal.ofWord := by
  induction values with
  | nil =>
    rw [printout_nil, String.empty_append]
    exact Text.runs_eq_nil_iff.mpr hEnding
  | cons value values ih =>
    have hText : (printout (value :: values) ++ ending).toList =
        (Decimal.ofWord value).toList ++ '\n' :: (printout values ++ ending).toList := by
      simp [printout_cons]
    rw [List.map_cons, ← ih]
    exact Text.runs_append (Decimal.isRun_ofWord value) hText (by decide)

theorem readToken_ofWord {value : Word} (h : Word.Reduced value) :
    readToken (Decimal.ofWord value) = .ok value := by
  rw [readToken, Decimal.int32?_ofWord h]
  simp

theorem readings_printout {values : List Word} (hReduced : ∀ value ∈ values, Word.Reduced value)
    {ending : String} (hEnding : ending.toList.all Text.isSpace = true) (index : Nat) :
    readings (Script.ofText (printout values ++ ending)) index =
      match values[index]? with
      | some value => .ok value
      | none => .error .exhausted := by
  rw [Script.ofText, words_printout values hEnding, Script.readings_eq, List.getElem?_map]
  cases hValue : values[index]? with
  | none => rfl
  | some value => exact readToken_ofWord (hReduced value (List.mem_of_getElem? hValue))

end Accumulator
