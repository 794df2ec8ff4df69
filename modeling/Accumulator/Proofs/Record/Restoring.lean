import Accumulator.Proofs.Failure
import Accumulator.Record.Storable

/-! # Records that are loaded again

A stored value is loaded as the value that was stored, up to the limits of 64 bits and whatever the
variables are called. Instructions and programs are stored as text only, so that a list of lines is
loaded as a program exactly if it is one, and all that is recorded of a program besides its lines is
found again by building it.
-/

namespace Accumulator

set_option autoImplicit false

theorem Datum.texts?_map_text (lines : List String) :
    (list (lines.map text)).texts? = some lines := by
  induction lines with
  | nil => rfl
  | cons line lines ih =>
    simp only [texts?] at ih ⊢
    rw [List.map_cons, List.mapM_cons, ih]
    rfl

namespace Storable

/-- What the value is stored as is loaded as the value. -/
def Keeps {α : Type} [Storable α] (value : α) : Prop :=
  load (store value) = .ok value

/-! ## Single values -/

theorem loadIndex_natCast {n : Nat} (h : n < UInt64.size) : loadIndex (.integer n) = .ok n := by
  have hRange : 0 ≤ (n : Int) ∧ (n : Int) < UInt64.size := by omega
  rw [loadIndex, if_pos hRange, Int.toNat_natCast]

theorem keeps_word (value : Word) : Keeps value := by
  have hLow : Int64.minValue.toInt ≤ value.toInt := Int64.minValue_le_toInt value
  have hHigh : value.toInt ≤ Int64.maxValue.toInt := Int64.toInt_le value
  change (if Int64.minValue.toInt ≤ value.toInt ∧ value.toInt ≤ Int64.maxValue.toInt then
    Except.ok (Int64.ofInt value.toInt) else Except.error LoadFault.malformed) = _
  rw [if_pos ⟨hLow, hHigh⟩, Int64.ofInt_toInt]

theorem keeps_count (value : UInt64) : Keeps value := by
  change (loadIndex (.integer value.toNat)).map UInt64.ofNat = _
  rw [loadIndex_natCast value.toNat_lt]
  exact congrArg Except.ok (UInt64.ofNat_toNat)

/-- A stored value that is not null is told from an absent one. -/
theorem keeps_option {α : Type} [Storable α] {value? : Option α}
    (h : ∀ value ∈ value?, Keeps value ∧ store value ≠ .null) : Keeps value? := by
  cases value? with
  | none => rfl
  | some value =>
    obtain ⟨hKeeps, hNull⟩ := h value rfl
    simp only [Keeps, store, load] at hKeeps ⊢
    rw [hKeeps]
    rfl

theorem loadNamed_of_mem {α : Type} {values : List α} {name : α → String} {value : α}
    (hDistinct : ∀ other ∈ values, name other = name value → other = value)
    (h : value ∈ values) : loadNamed values name (.text (name value)) = .ok value := by
  have hFound : values.find? (fun other => name other == name value) = some value := by
    cases hSearch : values.find? fun other => name other == name value with
    | none =>
      have hNone := List.find?_eq_none.mp hSearch value h
      simp at hNone
    | some other =>
      have hName : name other = name value := by simpa using List.find?_some hSearch
      rw [hDistinct other (List.mem_of_find?_eq_some hSearch) hName]
  change LoadFault.require (values.find? fun other => name other == name value) = _
  rw [hFound]
  rfl

theorem keeps_symbolKind (kind : SymbolKind) : Keeps kind := by
  apply loadNamed_of_mem <;> cases kind <;> decide

theorem keeps_termination (termination : Termination) : Keeps termination := by
  apply loadNamed_of_mem <;> cases termination <;> decide

/-! ## Records -/

theorem keeps_symbol {symbol : Symbol} (h : symbol.index < UInt64.size) : Keeps symbol := by
  change (do
    return (⟨← loadIndex (.integer symbol.index), ← load (store symbol.kind)⟩ : Symbol)) = _
  rw [loadIndex_natCast h, keeps_symbolKind symbol.kind]
  rfl

theorem keeps_stepOutcome (outcome : StepOutcome) : Keeps outcome := by
  cases outcome with
  | running => rfl
  | finished termination =>
    change (load (store termination)).map StepOutcome.finished = _
    rw [keeps_termination termination]
    rfl

theorem keeps_runOutcome (outcome : RunOutcome) : Keeps outcome := by
  change (do
    return (⟨← load (store outcome.steps), ← load (store outcome.termination)⟩ : RunOutcome)) = _
  rw [keeps_count outcome.steps, keeps_termination outcome.termination]
  rfl

theorem keeps_config (config : Config) : Keeps config := by
  have hLimit : Keeps config.stepLimit :=
    keeps_option fun limit _ => ⟨keeps_count limit, nofun⟩
  change (do
    return (⟨← load (store config.verbose), ← load (store config.stepLimit)⟩ : Config)) = _
  rw [hLimit]
  rfl

theorem ofList_of_perm {memory : VariableStore} {entries : List (String × Word)}
    (h : entries.Perm memory.toList) : Std.ExtTreeMap.ofList entries = memory := by
  have hDistinct : entries.Pairwise fun left right => ¬ compare left.1 right.1 = .eq := by
    refine (h.pairwise_iff ?_).mpr Std.ExtTreeMap.distinct_keys_toList
    intro left right hOther hSame
    exact hOther (Std.OrientedCmp.eq_symm hSame)
  have hMem : ∀ {name : String} {value : Word},
      (name, value) ∈ entries ↔ memory[name]? = some value := by
    intro name value
    rw [h.mem_iff, Std.ExtTreeMap.mem_toList_iff_getElem?_eq_some]
  apply Std.ExtTreeMap.ext_getElem?
  intro name
  cases hFound : memory[name]? with
  | some value =>
    exact Std.ExtTreeMap.getElem?_ofList_of_mem Std.ReflCmp.compare_self hDistinct (hMem.mpr hFound)
  | none =>
    apply Std.ExtTreeMap.getElem?_ofList_of_contains_eq_false
    rw [List.contains_eq_mem, decide_eq_false_iff_not, List.mem_map]
    rintro ⟨⟨other, value⟩, hEntry, rfl⟩
    rw [hMem.mp hEntry] at hFound
    cases hFound

/-- The order in which variables are stored does not matter. -/
theorem load_entries_of_perm {memory : VariableStore} {entries : List (String × Word)}
    (h : entries.Perm memory.toList) :
    load (.record (entries.map fun entry => (entry.1, store entry.2))) = .ok memory := by
  have hRead : (entries.map fun entry => (entry.1, store entry.2)).mapM
      (fun entry => return (entry.1, ← load entry.2) :
        String × Datum → Except LoadFault (String × Word)) = .ok entries := by
    rw [mapM_eq_ok_iff, List.map_map]
    apply List.map_congr_left
    intro entry _
    rw [Function.comp_apply, keeps_word entry.2]
    rfl
  change (_ >>= fun entries : List (String × Word) => pure (Std.ExtTreeMap.ofList entries)) = _
  rw [hRead, ← ofList_of_perm h]
  rfl

theorem keeps_memory (memory : VariableStore) : Keeps memory :=
  load_entries_of_perm (.refl _)

theorem keeps_machineState {state : MachineState} (h : state.counter < UInt64.size) :
    Keeps state := by
  change (do
    return (⟨← load (store state.accumulator), ← load (store state.memory),
      ← loadIndex (.integer state.counter), ← load (store state.steps)⟩ : MachineState)) = _
  rw [keeps_word state.accumulator, keeps_memory state.memory, loadIndex_natCast h,
    keeps_count state.steps]
  rfl

/-! ## Texts -/

theorem keeps_instruction {line : String} {instruction : Instruction}
    (h : Instruction.parse line = .ok instruction) : Keeps instruction := by
  obtain ⟨rfl, _⟩ := Instruction.source_eq_of_parse h
  simp only [Keeps, store, load, h]

theorem load_lines (lines : List String) :
    (load (.list (lines.map .text)) : Except LoadFault Program) =
      (Program.ofLines lines).mapError .rejected := by
  simp only [load, Datum.texts?_map_text, LoadFault.require, bind, Except.bind]
  cases Program.ofLines lines <;> rfl

theorem store_of_ofLines {lines : List String} {program : Program}
    (h : Program.ofLines lines = .ok program) : store program = .list (lines.map .text) := by
  obtain ⟨instructions, hRead, hBuild⟩ := exists_of_bind_eq_ok h
  have hLines : instructions.map Instruction.source = lines :=
    map_eq_of_map_eq_map_ok (fun _ _ hParse => (Instruction.source_eq_of_parse hParse).1)
      (mapM_eq_ok_iff.mp hRead)
  change Datum.list
    (program.instructions.toList.map fun instruction => .text instruction.source) = _
  rw [Program.instructions_of_build hBuild, ← hLines, List.map_map]
  rfl

theorem keeps_program {lines : List String} {program : Program}
    (h : Program.ofLines lines = .ok program) : Keeps program := by
  rw [Keeps, store_of_ofLines h, load_lines, h]
  rfl

/-- Every instruction and program that was read from text is loaded as it was stored, and so is
every other record whose indices have 64 bits. The variables of a state may come in any order. A
list of lines is loaded as a program exactly if it is one, is refused for the same fault if not, and
is stored again as it was. -/
theorem restores_stored :
    (∀ line instruction, Instruction.parse line = .ok instruction → Keeps instruction) ∧
    (∀ lines program, Program.ofLines lines = .ok program → Keeps program) ∧
    (∀ state : MachineState, state.counter < UInt64.size → Keeps state) ∧
    (∀ config : Config, Keeps config) ∧ (∀ outcome : RunOutcome, Keeps outcome) ∧
    (∀ outcome : StepOutcome, Keeps outcome) ∧
    (∀ symbol : Symbol, symbol.index < UInt64.size → Keeps symbol) ∧
    (∀ (memory : VariableStore) (entries : List (String × Word)), entries.Perm memory.toList →
      load (.record (entries.map fun entry => (entry.1, store entry.2))) = .ok memory) ∧
    ∀ lines, (load (.list (lines.map .text)) : Except LoadFault Program) =
        (Program.ofLines lines).mapError .rejected ∧
      ∀ program : Program, load (.list (lines.map .text)) = .ok program →
        store program = .list (lines.map .text) := by
  refine ⟨fun _ _ => keeps_instruction, fun _ _ => keeps_program, fun _ => keeps_machineState,
    keeps_config, keeps_runOutcome, keeps_stepOutcome, fun _ => keeps_symbol,
    fun _ _ => load_entries_of_perm, fun lines => ⟨load_lines lines, ?_⟩⟩
  intro program hLoad
  rw [load_lines] at hLoad
  apply store_of_ofLines
  cases hProgram : Program.ofLines lines with
  | ok found =>
    rw [hProgram] at hLoad
    cases hLoad
    rfl
  | error fault =>
    rw [hProgram] at hLoad
    cases hLoad

/-- A state at the limits of its numbers, with a variable that has no name. -/
def utmostState : MachineState :=
  ⟨Int64.minValue, Std.ExtTreeMap.ofList [("é", Int64.maxValue), ("", -1)], UInt64.size - 1,
    MachineState.maxSteps⟩

theorem restores_stored_utmost :
    (utmostState.counter < UInt64.size ∧ Keeps utmostState) ∧
    [("é", Int64.maxValue), ("", -1)].Perm utmostState.memory.toList ∧
    load (.record [("é", .integer Int64.maxValue.toInt), ("", .integer (-1))]) =
      .ok utmostState.memory ∧
    Keeps (⟨UInt64.size - 1, .data⟩ : Symbol) ∧
    (∃ instruction, Instruction.parse "\tbu  BU be" = .ok instruction ∧ Keeps instruction) ∧
    (∃ program, Program.ofLines ["\tbu  BU be", "be Load =1"] = .ok program ∧ Keeps program ∧
      program.symbols["be"]? = some ⟨1, .code⟩) ∧
    (load (.list [.text "BU F", .text "F END X"]) : Except LoadFault Program) =
      .error (.rejected (.invalidLine "F END X")) := by
  obtain ⟨hInstruction, hProgram, hState, _, _, _, hSymbol, hMemory, hLines⟩ := restores_stored
  have hPerm : [("é", Int64.maxValue), ("", -1)].Perm utmostState.memory.toList :=
    .swap ("", -1) ("é", Int64.maxValue) []
  have hRead : Instruction.parse "\tbu  BU be" = .ok _ := rfl
  have hBuilt : Program.ofLines ["\tbu  BU be", "be Load =1"] = .ok _ := rfl
  have hFault := (hLines ["BU F", "F END X"]).1
  exact ⟨⟨by decide, hState _ (by decide)⟩, hPerm, hMemory _ _ hPerm, hSymbol _ (by decide),
    ⟨_, hRead, hInstruction _ _ hRead⟩, ⟨_, hBuilt, hProgram _ _ hBuilt, rfl⟩, hFault⟩

end Storable

end Accumulator
