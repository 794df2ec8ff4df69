import Accumulator.Proofs.Source.Locations

/-! # The lines of a source file

A text is cut at its line feeds into pieces that end in one and a last piece that does not. The
lines of a file are the pieces with their numbers, less those that hold nothing but spaces and
tabs. A piece that ends in a line feed loses a carriage return in front of it; the last piece keeps
one, so it is told apart from a text in which every piece would lose it.
-/

namespace Accumulator

set_option autoImplicit false

namespace Text

/-- The pieces that end in a line feed, and the one behind them. -/
structure IsCut (chars : List Char) (ended : List (List Char)) (last : List Char) : Prop where
  chars_eq : chars = ended.flatMap (· ++ ['\n']) ++ last
  ended_free : ∀ piece ∈ ended, '\n' ∉ piece
  last_free : '\n' ∉ last

theorem splitOnP_of_not_mem {piece : List Char} (h : '\n' ∉ piece) :
    piece.splitOnP (· == '\n') = [piece] := by
  apply List.splitOnP_eq_singleton
  intro c hMem
  simpa using ne_of_mem_of_not_mem hMem h

theorem IsCut.splitOnP_eq {chars last : List Char} {ended : List (List Char)}
    (h : IsCut chars ended last) : chars.splitOnP (· == '\n') = ended ++ [last] := by
  obtain ⟨rfl, hEnded, hLast⟩ := h
  induction ended with
  | nil => exact splitOnP_of_not_mem hLast
  | cons piece ended ih =>
    obtain ⟨hPiece, hRest⟩ := List.forall_mem_cons.mp hEnded
    rw [List.flatMap_cons, List.append_assoc, List.append_assoc, List.singleton_append,
      List.splitOnP_append_cons _ _ (by rfl), splitOnP_of_not_mem hPiece, ih hRest]
    rfl

theorem exists_isCut (chars : List Char) : ∃ ended last, IsCut chars ended last := by
  induction chars with
  | nil => exact ⟨[], [], rfl, nofun, List.not_mem_nil⟩
  | cons c chars ih =>
    obtain ⟨ended, last, rfl, hEnded, hLast⟩ := ih
    by_cases hFeed : c = '\n'
    · subst hFeed
      exact ⟨[] :: ended, last, rfl, List.forall_mem_cons.mpr ⟨List.not_mem_nil, hEnded⟩, hLast⟩
    · cases ended with
      | nil =>
        exact ⟨[], c :: last, rfl, nofun,
          List.not_mem_cons_of_ne_of_not_mem (Ne.symm hFeed) hLast⟩
      | cons piece ended =>
        obtain ⟨hPiece, hRest⟩ := List.forall_mem_cons.mp hEnded
        have hLonger := List.not_mem_cons_of_ne_of_not_mem (Ne.symm hFeed) hPiece
        exact ⟨(c :: piece) :: ended, last, rfl, List.forall_mem_cons.mpr ⟨hLonger, hRest⟩, hLast⟩

theorem IsCut.unique {chars last other : List Char} {ended others : List (List Char)}
    (h : IsCut chars ended last) (hOther : IsCut chars others other) :
    others = ended ∧ other = last := by
  have hSame : others ++ [other] = ended ++ [last] := hOther.splitOnP_eq.symm.trans h.splitOnP_eq
  obtain ⟨hEnded, hLast⟩ := List.append_inj' hSame rfl
  exact ⟨hEnded, List.singleton_inj.mp hLast⟩

/-- A text ends as its last piece does, unless that is empty; and then it does not end in a carriage
return. -/
theorem IsCut.getLast?_eq_return_iff {chars last : List Char} {ended : List (List Char)}
    (h : IsCut chars ended last) :
    chars.getLast? = some '\r' ↔ last.getLast? = some '\r' := by
  rw [h.chars_eq, List.getLast?_append]
  cases hLast : last.getLast? with
  | some c => rfl
  | none =>
    rw [Option.none_or]
    rcases List.eq_nil_or_concat ended with rfl | ⟨front, piece, rfl⟩
    · rfl
    · simp

theorem lines_of_isCut {text : String} {ended : List (List Char)} {last : List Char}
    (h : IsCut text.toList ended last) :
    lines text = ended.map (fun piece => String.ofList (dropReturn piece)) ++
      if last = [] then [] else [String.ofList last] := by
  have hPieces : pieces text = ended ++ [last] := h.splitOnP_eq
  rw [lines, hPieces, List.dropLast_concat, List.getLast?_concat, Option.toList_some,
    List.map_append, List.map_map]
  congr 1
  cases last <;> rfl

end Text

namespace SourceFile

variable {text : String} {ended : List (List Char)} {last : List Char}

theorem numbered_concat_of_isVacant (lines : List String) {line : String}
    (h : Text.isVacant line = true) : numbered (lines ++ [line]) = numbered lines := by
  rw [numbered, List.zipIdx_append, List.filterMap_append, List.zipIdx_singleton,
    List.filterMap_cons_none (by simp [h]), List.filterMap_nil, List.append_nil]
  rfl

/-- The last piece is a line like the others, except that it keeps a carriage return. If it is
empty it is vacant, and makes no difference. -/
theorem lines_ofText_of_isCut (path : String) (h : Text.IsCut text.toList ended last) :
    (ofText path text).lines =
      numbered (ended.map (fun piece => String.ofList (Text.dropReturn piece)) ++
        [String.ofList last]) := by
  have hLines : (ofText path text).lines = numbered (Text.lines text) := rfl
  rw [hLines, Text.lines_of_isCut h]
  split
  · rename_i hEmpty
    subst hEmpty
    rw [List.append_nil]
    exact (numbered_concat_of_isVacant _ rfl).symm
  · rfl

/-- Every piece would lose a carriage return at its end exactly if the last one has none. -/
theorem lines_ofText_eq_iff (path : String) (h : Text.IsCut text.toList ended last) :
    (ofText path text).lines =
        numbered ((ended ++ [last]).map fun piece => String.ofList (Text.dropReturn piece)) ↔
      text.toList.getLast? ≠ some '\r' := by
  rw [lines_ofText_of_isCut path h, List.map_append, List.map_singleton, ne_eq,
    h.getLast?_eq_return_iff]
  constructor
  · intro hSame hReturn
    have hMem := List.mem_of_getLast? hReturn
    have hKept : Text.isVacant (String.ofList last) = false := by
      rw [Text.isVacant, String.toList_ofList, List.all_eq_false]
      exact ⟨'\r', hMem, by decide⟩
    have hLast : ⟨ended.length + 1, String.ofList last⟩ ∈
        numbered (ended.map (fun piece => String.ofList (Text.dropReturn piece)) ++
          [String.ofList last]) :=
      mem_numbered_iff.mpr ⟨⟨Nat.succ_pos _, by simp⟩, hKept⟩
    rw [hSame, mem_numbered_iff] at hLast
    have hTexts : Text.dropReturn last = last := by simpa [String.ofList_inj] using hLast.1.2
    have hStripped : Text.dropReturn last = last.dropLast := if_pos hReturn
    have hLengths := congrArg List.length (hStripped.symm.trans hTexts)
    have hNonempty := List.length_pos_of_mem hMem
    rw [List.length_dropLast] at hLengths
    omega
  · intro hReturn
    have hStripped : Text.dropReturn last = last := if_neg hReturn
    rw [hStripped]

theorem getElem?_concat_eq_some_iff {lines : List String} {last line : String} {index : Nat} :
    (lines ++ [last])[index]? = some line ↔
      lines[index]? = some line ∨ index = lines.length ∧ line = last := by
  rcases Nat.lt_trichotomy index lines.length with hFront | rfl | hBehind
  · rw [List.getElem?_append_left hFront]
    simp [Nat.ne_of_lt hFront]
  · simp [eq_comm]
  · have hNone : (lines ++ [last])[index]? = none := by
      rw [List.getElem?_eq_none_iff, List.length_append, List.length_singleton]
      exact hBehind
    simp [hNone, List.getElem?_eq_none (Nat.le_of_lt hBehind), Nat.ne_of_gt hBehind]

theorem mem_lines_ofText_iff_of_isCut (path : String) (h : Text.IsCut text.toList ended last)
    {number : Nat} {line : String} :
    ⟨number, line⟩ ∈ (ofText path text).lines ↔
      ((∃ piece, 1 ≤ number ∧ ended[number - 1]? = some piece ∧
          line = String.ofList (Text.dropReturn piece)) ∨
        number = ended.length + 1 ∧ line = String.ofList last) ∧
      ∃ c ∈ line.toList, c ≠ ' ' ∧ c ≠ '\t' := by
  have hVacant : Text.isVacant line = false ↔ ∃ c ∈ line.toList, c ≠ ' ' ∧ c ≠ '\t' := by
    simp [Text.isVacant, Text.isGap]
  rw [lines_ofText_of_isCut path h, mem_numbered_iff, hVacant, getElem?_concat_eq_some_iff,
    List.getElem?_map, Option.map_eq_some_iff, List.length_map]
  apply and_congr_left'
  constructor
  · rintro ⟨hPositive, ⟨piece, hPiece, rfl⟩ | ⟨hIndex, rfl⟩⟩
    · exact .inl ⟨piece, hPositive, hPiece, rfl⟩
    · exact .inr ⟨by omega, rfl⟩
  · rintro (⟨piece, hPositive, hPiece, rfl⟩ | ⟨rfl, rfl⟩)
    · exact ⟨hPositive, .inl ⟨piece, hPiece, rfl⟩⟩
    · exact ⟨Nat.succ_pos _, .inr ⟨Nat.add_sub_cancel .., rfl⟩⟩

/-- Every text is cut in one way. The kept lines come in the order of their numbers, and they are
the pieces that hold anything, each under its own number. They are the pieces that all had a
carriage return removed exactly if the text does not end in one. -/
theorem lines_ofText_stripped_iff (path text : String) :
    ∃ ended last,
      (∀ others other, Text.IsCut text.toList others other ↔ others = ended ∧ other = last) ∧
      (ofText path text).lines.Pairwise (fun left right => left.number < right.number) ∧
      (∀ number line, ⟨number, line⟩ ∈ (ofText path text).lines ↔
        ((∃ piece, 1 ≤ number ∧ ended[number - 1]? = some piece ∧
            line = String.ofList (Text.dropReturn piece)) ∨
          number = ended.length + 1 ∧ line = String.ofList last) ∧
        ∃ c ∈ line.toList, c ≠ ' ' ∧ c ≠ '\t') ∧
      ((ofText path text).lines =
          numbered ((ended ++ [last]).map fun piece => String.ofList (Text.dropReturn piece)) ↔
        text.toList.getLast? ≠ some '\r') := by
  obtain ⟨ended, last, hCut⟩ := Text.exists_isCut text.toList
  refine ⟨ended, last, ?unique, pairwise_number_lt path text, ?members,
    lines_ofText_eq_iff path hCut⟩
  case unique =>
    intro others other
    constructor
    · exact hCut.unique
    · rintro ⟨rfl, rfl⟩
      exact hCut
  case members =>
    intro number line
    exact mem_lines_ofText_iff_of_isCut path hCut

/-- A last line with a carriage return and no line feed behind it. -/
theorem exists_text_keeping_return :
    Text.IsCut "F END\r".toList [] "F END\r".toList ∧
      numbered (([] ++ ["F END\r".toList]).map fun piece =>
        String.ofList (Text.dropReturn piece)) = [⟨1, "F END"⟩] ∧
      (ofText "prog.aal" "F END\r").lines = [⟨1, "F END\r"⟩] :=
  ⟨⟨rfl, nofun, by decide⟩, by decide, by decide⟩

end SourceFile

end Accumulator
