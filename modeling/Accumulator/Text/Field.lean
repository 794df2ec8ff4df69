/-! # Fields and words of a text

A source line is cut into fields at spaces and tabs only, so that every other character may
stand in a label or an operand. Program input is cut into words at the characters with the
Unicode property White_Space.
-/

namespace Accumulator.Text

set_option autoImplicit false

/-- The maximal runs of characters that are not separators, in order. -/
def runs (separator : Char → Bool) (text : String) : List String :=
  ((text.toList.splitOnP separator).filter fun run => !run.isEmpty).map String.ofList

/-- The characters between the fields of a source line. -/
def isGap (c : Char) : Bool :=
  c == ' ' || c == '\t'

def fields (line : String) : List String :=
  runs isGap line

/-- A line without fields: it is empty or holds gaps only. -/
def isVacant (line : String) : Bool :=
  line.toList.all isGap

/-- The code points with the property White_Space, as closed ranges in increasing order. -/
def whiteSpace : List (Nat × Nat) :=
  [(0x09, 0x0D), (0x20, 0x20), (0x85, 0x85), (0xA0, 0xA0), (0x1680, 0x1680), (0x2000, 0x200A),
    (0x2028, 0x2029), (0x202F, 0x202F), (0x205F, 0x205F), (0x3000, 0x3000)]

def isSpace (c : Char) : Bool :=
  whiteSpace.any fun (first, last) => first ≤ c.toNat && c.toNat ≤ last

def words (text : String) : List String :=
  runs isSpace text

def spaces (count : Nat) : String :=
  String.ofList (List.replicate count ' ')

theorem separator_eq_false_of_mem_splitOnP {separator : Char → Bool} {text piece : List Char}
    (h : piece ∈ text.splitOnP separator) : ∀ c ∈ piece, separator c = false := by
  induction text generalizing piece with
  | nil =>
    rw [List.splitOnP_nil, List.mem_singleton] at h
    simp [h]
  | cons c text ih =>
    obtain ⟨first, rest, hSplit⟩ := List.exists_cons_of_ne_nil (List.splitOnP_ne_nil separator text)
    rw [List.splitOnP_cons_eq_if_modifyHead, hSplit] at h
    rw [hSplit] at ih
    split at h
    · rcases List.mem_cons.mp h with rfl | hRest
      · simp
      · exact ih hRest
    · rename_i hSeparator
      rcases List.mem_cons.mp h with rfl | hRest
      · intro d hMem
        rcases List.mem_cons.mp hMem with rfl | hMem
        · simpa using hSeparator
        · exact ih List.mem_cons_self d hMem
      · exact ih (List.mem_cons_of_mem _ hRest)

theorem ne_empty_of_mem_runs {separator : Char → Bool} {text run : String}
    (h : run ∈ runs separator text) : run ≠ "" ∧ ∀ c ∈ run.toList, separator c = false := by
  obtain ⟨piece, hPiece, rfl⟩ := List.mem_map.mp h
  obtain ⟨hMem, hNonempty⟩ := List.mem_filter.mp hPiece
  refine ⟨?_, ?_⟩
  · intro hEmpty
    have hNil : piece = [] := by simpa using congrArg String.toList hEmpty
    simp [hNil] at hNonempty
  · rw [String.toList_ofList]
    exact separator_eq_false_of_mem_splitOnP hMem

end Accumulator.Text
