import Accumulator.Proofs.Machine.Quotation
import Accumulator.Proofs.Program.Display

/-! # The listing as a program

The listing of a program, if it can be shown, is a program again when the line numbers are taken
away. It is a paraphrase of the first one, has the same listing, and runs in the same way.
-/

namespace Accumulator.Program

set_option autoImplicit false

/-- The lines of the listing, without their numbers. -/
def rows (program : Program) : Except Crash (List String) :=
  (List.range program.size).filterMapM program.row?

variable {program : Program} {lines rows : List String} {instructions : List Instruction}

theorem rows_eq_ok_iff :
    program.rows = .ok rows ↔ ∀ index, program.row? index = .ok rows[index]? :=
  collect_eq_ok_iff fun _ => row?_eq_none_iff

theorem exists_rows_iff : (∃ rows, program.rows = .ok rows) ↔ program.Showable :=
  exists_collect_iff (fun _ => row?_eq_none_iff) fun _ _ => row?_eq_error_iff

theorem line?_of_rows (h : program.rows = .ok rows) (index : Nat) :
    program.line? index =
      .ok (rows[index]?.map fun row => Decimal.ofNat (index + 1) ++ ": " ++ row) := by
  rw [line?_eq_map, rows_eq_ok_iff.mp h]
  rfl

/-- The row shows the instruction, in a label column of some width. -/
def Shows (instruction : Instruction) (row : String) : Prop :=
  ∃ width, instruction.render width = .ok row

theorem forall₂_of_getElem? {α β : Type} {R : α → β → Prop} {xs : List α} {ys : List β}
    (h : ∀ index : Nat, Option.Rel R xs[index]? ys[index]?) : List.Forall₂ R xs ys := by
  induction xs generalizing ys with
  | nil =>
    cases ys with
    | nil => exact .nil
    | cons y ys => cases h 0
  | cons x xs ih =>
    cases ys with
    | nil => cases h 0
    | cons y ys =>
      cases h 0 with
      | some hHead => exact .cons hHead (ih fun index => h (index + 1))

theorem shows_of_rows (h : program.rows = .ok rows) :
    List.Forall₂ Shows program.instructions.toList rows := by
  apply forall₂_of_getElem?
  intro index
  have hRow := rows_eq_ok_iff.mp h index
  have hGet : program.instructions.toList[index]? = program.get? index :=
    Array.getElem?_toList
  rw [hGet]
  cases hText : rows[index]? with
  | none =>
    rw [hText] at hRow
    rw [row?_eq_none_iff.mp hRow]
    exact .none
  | some row =>
    rw [hText] at hRow
    obtain ⟨instruction, hFound, hRendered⟩ := row?_eq_some_iff.mp hRow
    rw [hFound]
    exact .some ⟨_, hRendered⟩

/-- Rows are read as the instructions that they show, but for the line as written. -/
theorem exists_read_of_shows (hRows : List.Forall₂ Shows instructions rows)
    (hRead : ∀ instruction ∈ instructions, ∃ line, Instruction.parse line = .ok instruction) :
    ∃ copies, rows.map Instruction.parse = copies.map .ok ∧
      List.Forall₂ Instruction.SameFields instructions copies := by
  induction hRows with
  | nil => exact ⟨[], rfl, .nil⟩
  | @cons instruction row instructions rows hShows hRest ih =>
    obtain ⟨width, hRow⟩ := hShows
    obtain ⟨line, hParse⟩ := hRead instruction List.mem_cons_self
    obtain ⟨copies, hCopies, hFields⟩ :=
      ih fun other hMem => hRead other (List.mem_cons_of_mem _ hMem)
    have hCopy := Instruction.parse_render hParse hRow
    refine ⟨{ instruction with source := row } :: copies, ?_, .cons ⟨rfl, rfl, rfl⟩ hFields⟩
    rw [List.map_cons, List.map_cons, hCopy, hCopies]

theorem exists_paraphrase_of_rows (h : ofLines lines = .ok program)
    (hRows : program.rows = .ok rows) :
    ∃ copy, ofLines rows = .ok copy ∧ program.Paraphrases copy := by
  obtain ⟨instructions, hRead, hBuild⟩ := exists_of_bind_eq_ok h
  have hSame := instructions_of_build hBuild
  have hShows := shows_of_rows hRows
  rw [hSame] at hShows
  have hLines : ∀ instruction ∈ instructions,
      ∃ line, Instruction.parse line = .ok instruction := by
    intro instruction hMem
    obtain ⟨index, hFound⟩ := List.mem_iff_getElem?.mp hMem
    obtain ⟨line, _, hParse⟩ := getElem?_of_map_eq_map_ok (mapM_eq_ok_iff.mp hRead) hFound
    exact ⟨line, hParse⟩
  obtain ⟨copies, hCopies, hFields⟩ := exists_read_of_shows hShows hLines
  obtain ⟨copy, hCopy, hParaphrases⟩ := build_of_sameFields hFields hBuild
  refine ⟨copy, ?_, hParaphrases⟩
  rw [ofLines, mapM_eq_ok_iff.mpr hCopies]
  exact hCopy

open Execution in
/-- A listing can be shown exactly if no line of it has a label column that cannot be filled up.
Without its numbers it is a paraphrase with the same listing and the same runs; only the line that a
fault quotes may be another. -/
theorem rows_normalForm (h : ofLines lines = .ok program) :
    (program.labelWidth ≤ Instruction.maxFill → program.Showable) ∧
    ((∃ rows, program.rows = .ok rows) ↔ program.Showable) ∧
    ∀ rows, program.rows = .ok rows →
      (∀ index, program.line? index =
        .ok (rows[index]?.map fun row => Decimal.ofNat (index + 1) ++ ": " ++ row)) ∧
      ∃ copy, ofLines rows = .ok copy ∧ program.Paraphrases copy ∧
        (∃ text, program.listing = .ok text ∧ copy.listing = .ok text) ∧
        ∀ {ι ω : Type} [InputDevice ι] [OutputDevice ω] (config : Config) (session : Session ι ω),
          (∀ count,
            unquote (steps config copy count session) =
              unquote (steps config program count session) ∧
            written config copy count session = written config program count session) ∧
          ∀ fuel, (run fuel config copy session).map unquote =
            (run fuel config program session).map unquote := by
  refine ⟨showable_of_labelWidth_le, exists_rows_iff, ?_⟩
  intro rows hRows
  obtain ⟨copy, hCopy, hParaphrases⟩ := exists_paraphrase_of_rows h hRows
  obtain ⟨text, hText⟩ := exists_listing_iff.mpr (exists_rows_iff.mp ⟨rows, hRows⟩)
  have hBare := bare_eq_of_paraphrases hParaphrases
  refine ⟨line?_of_rows hRows, copy, hCopy, hParaphrases,
    ⟨text, hText, hParaphrases.listing.symm.trans hText⟩, ?_⟩
  intro ι ω _ _ config session
  constructor
  · intro count
    have hSteps : unquoted (steps config copy count : Execution ι ω StepOutcome) =
        unquoted (steps config program count) := by
      rw [unquoted_steps, unquoted_steps, hBare]
    refine ⟨congrFun hSteps session, ?_⟩
    rw [← written_bare, ← hBare, written_bare]
  · intro fuel
    rw [unquote_run, unquote_run, hBare]

/-- A label that is a mnemonic, one of two bytes in one character, and gaps of other widths. -/
def crookedLines : List String :=
  ["LOAD\tREAD  N", "é DC 3", "DIV\t=0"]

def crookedRows : List String :=
  ["LOAD   READ N", "é      DC 3", "       DIV =0"]

theorem rows_normalForm_crookedLines :
    ∃ program copy, ofLines crookedLines = .ok program ∧
      program.rows = .ok crookedRows ∧
      ofLines crookedRows = .ok copy ∧ program.Paraphrases copy ∧
      (∃ text, program.listing = .ok text ∧ copy.listing = .ok text) ∧
      ∃ after : Session Script Sink,
        Execution.run 3 ⟨true, none⟩ program ⟨{}, ⟨["4"]⟩, {}⟩ =
          some (.error (.fault (.divisionByZero "=0" ⟨2, "DIV\t=0"⟩)) after) ∧
        Execution.run 3 ⟨true, none⟩ copy ⟨{}, ⟨["4"]⟩, {}⟩ =
          some (.error (.fault (.divisionByZero "=0" ⟨2, "       DIV =0"⟩)) after) := by
  have hProgram : ofLines crookedLines = .ok _ := rfl
  obtain ⟨_, _, hNormal⟩ := rows_normalForm hProgram
  obtain ⟨_, copy, hCopy, hParaphrases, hListing, _⟩ := hNormal crookedRows rfl
  refine ⟨_, copy, hProgram, rfl, hCopy, hParaphrases, hListing, ?_⟩
  cases hCopy
  exact ⟨_, rfl, rfl⟩

/-- The listing of a program with a label of nearly as many bytes as the formatter fills is never
shown. -/
theorem exists_rows_crash :
    ∃ lines program, ofLines lines = .ok program ∧ program.line? 0 = .error ⟨65536⟩ ∧
      ∀ rows, program.rows ≠ .ok rows := by
  have hLine : (longProgram 65533).line? 0 = .error ⟨65536⟩ := line?_longProgram (by decide)
  refine ⟨[longLine 65533], _, ofLines_longLine (by decide), hLine, ?_⟩
  intro rows hRows
  exact exists_rows_iff.mp ⟨rows, hRows⟩ 0 (line?_eq_error_iff.mp hLine).1

end Accumulator.Program
