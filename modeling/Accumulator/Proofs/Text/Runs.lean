import Accumulator.Text.Field

/-! # Runs of a text

The runs of a text are those on either side of any separator. So separators in a row make no run,
and a text without separators is a single one.
-/

namespace Accumulator.Text

set_option autoImplicit false

variable {separator : Char → Bool} {text left right run : String}

theorem runs_empty (separator : Char → Bool) : runs separator "" = [] := by
  simp [runs]

theorem runs_append_of_separator {c : Char} (hText : text.toList = left.toList ++ c :: right.toList)
    (hSeparator : separator c = true) :
    runs separator text = runs separator left ++ runs separator right := by
  simp only [runs, hText]
  rw [List.splitOnP_append_cons _ _ hSeparator, List.filter_append, List.map_append]

theorem runs_of_cons_separator {c : Char} (hText : text.toList = c :: right.toList)
    (hSeparator : separator c = true) : runs separator text = runs separator right := by
  have hFront : text.toList = "".toList ++ c :: right.toList := by simpa using hText
  have hSplit := runs_append_of_separator hFront hSeparator
  rwa [runs_empty, List.nil_append] at hSplit

/-- A text that is not empty and has no separator in it. -/
def IsRun (separator : Char → Bool) (run : String) : Prop :=
  run ≠ "" ∧ ∀ c ∈ run.toList, separator c = false

theorem isRun_of_mem_runs (h : run ∈ runs separator text) : IsRun separator run :=
  ne_empty_of_mem_runs h

theorem runs_of_isRun (h : IsRun separator run) : runs separator run = [run] := by
  obtain ⟨hNonempty, hFree⟩ := h
  have hList : run.toList ≠ [] := by simpa using hNonempty
  simp [runs, List.splitOnP_eq_singleton hFree, hList]

/-- A run at the front of a text ends at the next separator. -/
theorem runs_append (h : IsRun separator run) {c : Char}
    (hText : text.toList = run.toList ++ c :: right.toList) (hSeparator : separator c = true) :
    runs separator text = run :: runs separator right := by
  rw [runs_append_of_separator hText hSeparator, runs_of_isRun h]
  rfl

/-- The words are the maximal runs of the text: separators may stand anywhere between them, and a
run ends only at a separator or at the end of the text. -/
inductive HasRuns (separator : Char → Bool) : List Char → List String → Prop
  | nil : HasRuns separator [] []
  | skip {c : Char} {text : List Char} {words : List String} (hSeparator : separator c = true)
      (hRest : HasRuns separator text words) : HasRuns separator (c :: text) words
  | run {run : String} {text : List Char} {words : List String} (hRun : IsRun separator run)
      (hEnd : ∀ c ∈ text.head?, separator c = true) (hRest : HasRuns separator text words) :
      HasRuns separator (run.toList ++ text) (run :: words)

theorem eq_runs_of_hasRuns {chars : List Char} {words : List String}
    (h : HasRuns separator chars words) : words = runs separator (String.ofList chars) := by
  induction h with
  | nil => exact (runs_empty separator).symm
  | @skip c text words hSeparator _ ih =>
    have hFront : (String.ofList (c :: text)).toList = c :: (String.ofList text).toList := by simp
    rw [runs_of_cons_separator hFront hSeparator, ih]
  | @run run text words hRun hEnd _ ih =>
    cases text with
    | nil =>
      rw [ih, List.append_nil, String.ofList_toList, runs_of_isRun hRun]
      simp [runs]
    | cons c text =>
      have hSeparator : separator c = true := hEnd c rfl
      have hRest : (String.ofList (c :: text)).toList = c :: (String.ofList text).toList := by simp
      have hText : (String.ofList (run.toList ++ c :: text)).toList =
          run.toList ++ c :: (String.ofList text).toList := by simp
      rw [runs_append hRun hText hSeparator, ih, runs_of_cons_separator hRest hSeparator]

theorem exists_hasRuns (separator : Char → Bool) (chars : List Char) :
    ∃ words, HasRuns separator chars words := by
  induction chars with
  | nil => exact ⟨[], .nil⟩
  | cons c chars ih =>
    obtain ⟨words, hRest⟩ := ih
    cases hSeparator : separator c with
    | true => exact ⟨words, .skip hSeparator hRest⟩
    | false =>
      have hOpens : ∀ {text : List Char} {words : List String},
          (∀ d ∈ text.head?, separator d = true) → HasRuns separator text words →
          HasRuns separator (c :: text) (String.ofList [c] :: words) := by
        intro text words hEnd hText
        have hRun : IsRun separator (String.ofList [c]) := ⟨by simp, by simpa using hSeparator⟩
        simpa using HasRuns.run hRun hEnd hText
      cases hRest with
      | nil => exact ⟨_, hOpens nofun .nil⟩
      | skip hNext hText =>
        refine ⟨_, hOpens ?_ (.skip hNext hText)⟩
        intro d hHead
        cases hHead
        exact hNext
      | @run run text words hRun hEnd hText =>
        have hLonger : IsRun separator (String.ofList (c :: run.toList)) := by
          refine ⟨by simp, ?_⟩
          rw [String.toList_ofList, List.forall_mem_cons]
          exact ⟨hSeparator, hRun.2⟩
        refine ⟨String.ofList (c :: run.toList) :: words, ?_⟩
        simpa using HasRuns.run hLonger hEnd hText

/-- The runs of a text are all its maximal runs, in order. -/
theorem hasRuns_iff {words : List String} :
    HasRuns separator text.toList words ↔ words = runs separator text := by
  have hRuns : ∀ {words : List String}, HasRuns separator text.toList words →
      words = runs separator text := by
    intro words h
    rw [eq_runs_of_hasRuns h, String.ofList_toList]
  constructor
  · exact hRuns
  · rintro rfl
    obtain ⟨words, h⟩ := exists_hasRuns separator text.toList
    exact hRuns h ▸ h

theorem runs_eq_nil_iff : runs separator text = [] ↔ text.toList.all separator = true := by
  have hList : ∀ chars : List Char,
      ((chars.splitOnP separator).filter fun piece => !piece.isEmpty) = [] ↔
        chars.all separator = true := by
    intro chars
    induction chars with
    | nil => simp
    | cons c chars ih =>
      obtain ⟨first, rest, hSplit⟩ :=
        List.exists_cons_of_ne_nil (List.splitOnP_ne_nil separator chars)
      rw [List.splitOnP_cons_eq_if_modifyHead, List.all_cons]
      split
      · rename_i hSeparator
        simpa [hSeparator] using ih
      · rename_i hSeparator
        simp [hSplit, hSeparator]
  rw [runs, List.map_eq_nil_iff]
  exact hList text.toList

theorem isVacant_eq_true_iff : isVacant text = true ↔ fields text = [] :=
  runs_eq_nil_iff.symm

end Accumulator.Text
