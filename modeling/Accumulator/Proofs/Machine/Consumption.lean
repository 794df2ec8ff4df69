import Accumulator.Proofs.Machine.History
import Accumulator.Proofs.Machine.Range
import Accumulator.Proofs.Machine.Verbosity
import Mathlib.Data.List.Forall2

/-! # Use of the input

A script is used up by the `READ` instructions of a run alone, a word for each, from its front. So
the words that are left and the values that have been read are told by the number of `READ`s in the
history. A step that fails takes a word only if it is a `READ` and the word is no number.
-/

namespace Accumulator

set_option autoImplicit false

/-- The instructions of a history that have read a word. -/
def reads {ι : Type} (entries : List (Executed ι)) : List (Executed ι) :=
  entries.filter (·.instruction.opcode = .read)

/-- The variable that the instruction names has got the reduced value of the token. -/
def Executed.Stores {ι : Type} (entry : Executed ι) (token : String) : Prop :=
  ∃ number word, Decimal.int32? token = some number ∧
    entry.after.get? entry.instruction.target = some word ∧ word.toInt = number.tmod 1000000

/-- Each `READ` of the history has taken one token, from the first one on, and stored it. -/
structure Consumes (tokens : List String) (entries : List (Executed Script)) (left : Script) :
    Prop where
  left_eq : left = ⟨tokens.drop (reads entries).length⟩
  stored : List.Forall₂ Executed.Stores (reads entries) (tokens.take (reads entries).length)

theorem getElem?_and_drop_of_drop_eq_cons {α : Type} {xs rest : List α} {x : α} {index : Nat}
    (h : xs.drop index = x :: rest) : xs[index]? = some x ∧ xs.drop (index + 1) = rest := by
  constructor
  · rw [← List.head?_drop, h, List.head?_cons]
  · rw [← List.tail_drop, h, List.tail_cons]

section Histories

variable {ι : Type} {entries : List (Executed ι)} {entry : Executed ι}

theorem reads_concat_of_read (h : entry.instruction.opcode = .read) :
    reads (entries ++ [entry]) = reads entries ++ [entry] := by
  simp [reads, h]

theorem reads_concat_of_ne (h : entry.instruction.opcode ≠ .read) :
    reads (entries ++ [entry]) = reads entries := by
  simp [reads, h]

end Histories

theorem Decimal.toInt_of_int32? {text : String} {number : Int} (h : int32? text = some number) :
    (Int64.ofInt number).toInt = number := by
  obtain ⟨_, hRange⟩ := Option.filter_eq_some_iff.mp h
  have hBounds : Int32.minValue.toInt ≤ number ∧ number ≤ Int32.maxValue.toInt := by
    simpa using hRange
  have hLower : Int32.minValue.toInt = -2147483648 := rfl
  have hUpper : Int32.maxValue.toInt = 2147483647 := rfl
  exact Int64.toInt_ofInt_of_le (by omega) (by omega)

section Consumes

variable {tokens : List String} {entries : List (Executed Script)} {entry : Executed Script}
  {program : Program} {effect : Effect}

theorem consumes_nil (tokens : List String) : Consumes tokens [] ⟨tokens⟩ :=
  ⟨rfl, .nil⟩

theorem Consumes.length_le {left : Script} (h : Consumes tokens entries left) :
    (reads entries).length ≤ tokens.length := by
  have hLength := h.stored.length_eq
  rw [List.length_take] at hLength
  omega

theorem Consumes.concat_read (h : Consumes tokens entries entry.supply) {token : String}
    (hOpcode : entry.instruction.opcode = .read)
    (hTaken : entry.supply.tokens = token :: entry.rest.tokens) (hStores : entry.Stores token) :
    Consumes tokens (entries ++ [entry]) entry.rest := by
  have hDrop : tokens.drop (reads entries).length = token :: entry.rest.tokens := by
    rw [← hTaken, h.left_eq]
  obtain ⟨hToken, hRest⟩ := getElem?_and_drop_of_drop_eq_cons hDrop
  constructor
  · rw [reads_concat_of_read hOpcode, List.length_append, List.length_singleton, hRest]
  · rw [reads_concat_of_read hOpcode, List.length_append, List.length_singleton, List.take_add_one,
      hToken]
    exact List.rel_append h.stored (.cons hStores .nil)

theorem Consumes.concat_of_ne (h : Consumes tokens entries entry.supply)
    (hOpcode : entry.instruction.opcode ≠ .read) (hSame : entry.rest = entry.supply) :
    Consumes tokens (entries ++ [entry]) entry.rest := by
  rw [hSame]
  constructor
  · rw [reads_concat_of_ne hOpcode]
    exact h.left_eq
  · rw [reads_concat_of_ne hOpcode]
    exact h.stored

theorem Consumes.concat (h : Consumes tokens entries entry.supply)
    (hDecides : entry.before.Decides entry.instruction entry.before.counter effect)
    (hCarries : Execution.CarriesOut program entry effect) :
    Consumes tokens (entries ++ [entry]) entry.rest := by
  by_cases hOpcode : entry.instruction.opcode = .read
  · cases hDecides.eq_read hOpcode
    obtain ⟨_, hRead, hGet⟩ := hCarries.of_read
    obtain ⟨token, number, hTaken, hNumber, rfl⟩ := Script.read_ok hRead
    refine h.concat_read hOpcode hTaken ⟨number, _, hNumber, hGet, ?_⟩
    rw [Word.toInt_reduce, Decimal.toInt_of_int32? hNumber]
  · refine h.concat_of_ne hOpcode ?_
    cases hCarries with
    | compute _ _ hInput | store _ _ hInput | keep _ _ _ hInput => exact hInput
    | read =>
      cases hDecides with
      | read hRead => exact absurd hRead hOpcode

end Consumes

/-! ## Steps that fail -/

theorem MachineState.effect_ne_inputExhausted {state : MachineState} {instruction : Instruction}
    {index : Nat} {site : Site} :
    state.effect instruction index ≠ .error (.inputExhausted site) := by
  intro h
  cases faults_of_effect h with
  | operand _ hValue =>
    unfold operandValue at hValue
    split at hValue
    · cases eq_of_literalValue_error hValue
    · split at hValue <;> cases hValue
    · cases hValue
  | literal _ hValue => cases eq_of_literalValue_error hValue

namespace Execution

variable {ω : Type} [OutputDevice ω] {config : Config} {program : Program}
  {session after : Session Script ω} {failure : Failure}

/-- The failure is that of a `READ` for a word that is no number. -/
def RejectsWord (program : Program) (session : Session Script ω) (failure : Failure)
    (word : String) : Prop :=
  ∃ instruction site, program.get? session.state.counter = some instruction ∧
    instruction.opcode = .read ∧ failure = .fault (.invalidNumber word site)

inductive Spoils (program : Program) (session : Session Script ω) (failure : Failure) :
    Script → Prop
  | nothing (hAccepts : ∀ word, ¬ RejectsWord program session failure word)
      (hExhausted : ∀ site, failure = .fault (.inputExhausted site) → session.input.tokens = []) :
      Spoils program session failure session.input
  | word {word : String} {rest : Script} (hRejects : RejectsWord program session failure word)
      (hTaken : session.input.tokens = word :: rest.tokens) : Spoils program session failure rest

theorem spoils_of_step_error (hNever : NeverFails session.output)
    (h : step config program session = .error failure after) :
    Spoils program session failure after.input := by
  cases step_error h with
  | limit | crash | announcement =>
    refine .nothing ?_ ?_
    · rintro word ⟨_, _, _, _, hFault⟩
      cases hFault
    · intro site hFault
      cases hFault
  | evaluation hFetched hEffect =>
    refine .nothing ?_ ?_
    · rintro word ⟨found, _, hFound, hOpcode, _⟩
      have hSame := hFetched.symm.trans hFound
      cases hSame
      rw [MachineState.effect, hOpcode] at hEffect
      cases hEffect
    · intro site hFault
      cases hFault
      exact absurd hEffect MachineState.effect_ne_inputExhausted
  | @refusal instruction _ _ _ _ hIssues hRefuses =>
    cases hRefuses with
    | output | jump =>
      refine .nothing ?_ ?_
      · rintro word ⟨_, _, _, _, hFault⟩
        cases hFault
      · intro site hFault
        cases hFault
    | input _ hRead =>
      rcases Script.read_error hRead with ⟨rfl, hTokens, rfl⟩ | ⟨token, rfl, hTaken⟩
      · refine .nothing ?_ fun _ _ => hTokens
        rintro word ⟨_, _, _, _, hFault⟩
        cases hFault
      · cases MachineState.decides_of_effect hIssues.decided with
        | read hOpcode => exact .word ⟨instruction, _, hIssues.fetched, hOpcode, rfl⟩ hTaken
  | echo hIssues hCommits _ hWrite => exact absurd hWrite (hCommits.write_ne_error hIssues hNever)

theorem consumes_history {count : Nat} {session reached : Session Script ω} {outcome : StepOutcome}
    (h : steps config program count (restart session) = .ok outcome reached) :
    Consumes session.input.tokens (history config program count (restart session))
      reached.input := by
  refine history_induction
    (P := fun entries _ reached => Consumes session.input.tokens entries reached.input)
    ?_ (fun _ _ h => h) (consumes_nil _) h
  intro entries before instruction outcome next hConsumes hFound hStep
  obtain ⟨effect, hDecides, hCarries⟩ := carriesOut_of_step hFound hStep
  exact hConsumes.concat hDecides hCarries

/-- What is left of the tokens of a run after a step that fails, when `taken` of them have been
taken before it. -/
structure LeavesTokens (program : Program) (session : Session Script ω) (tokens : List String)
    (taken : Nat) (failure : Failure) (left : Script) : Prop where
  exhausted : ∀ site, failure = .fault (.inputExhausted site) →
    taken = tokens.length ∧ left = session.input
  rejected : ∀ word, RejectsWord program session failure word →
    tokens[taken]? = some word ∧ left = ⟨tokens.drop (taken + 1)⟩
  other : (∀ site, failure ≠ .fault (.inputExhausted site)) →
    (∀ word, ¬ RejectsWord program session failure word) → left = session.input

omit [OutputDevice ω] in
theorem Spoils.leavesTokens {left : Script} (h : Spoils program session failure left)
    {tokens : List String} {entries : List (Executed Script)}
    (hConsumes : Consumes tokens entries session.input) :
    LeavesTokens program session tokens (reads entries).length failure left := by
  have hLeft : tokens.drop (reads entries).length = session.input.tokens := by
    rw [hConsumes.left_eq]
  cases h with
  | nothing hAccepts hExhausted =>
    refine ⟨?_, fun word hRejects => absurd hRejects (hAccepts word), fun _ _ => rfl⟩
    intro site hFault
    have hNone := List.drop_eq_nil_iff.mp (hLeft.trans (hExhausted site hFault))
    exact ⟨Nat.le_antisymm hConsumes.length_le hNone, rfl⟩
  | word hRejects hTaken =>
    obtain ⟨hWord, hRest⟩ := getElem?_and_drop_of_drop_eq_cons (hLeft.trans hTaken)
    refine ⟨?_, ?_, fun _ hAccepts => absurd hRejects (hAccepts _)⟩
    · rintro site rfl
      obtain ⟨_, _, _, _, hFault⟩ := hRejects
      cases hFault
    · intro other hOther
      obtain ⟨_, _, _, _, rfl⟩ := hRejects
      obtain ⟨_, _, _, _, hFault⟩ := hOther
      cases hFault
      exact ⟨hWord, by rw [hRest]⟩

/-- Along a run on an output that never fails the words of a script are taken by its `READ`s alone,
one each. A step that finds no word takes none, a `READ` takes the word that it rejects, and any
other step that fails takes nothing. -/
theorem reads_consume (config : Config) (program : Program) (count : Nat)
    (session : Session Script ω) (hNever : NeverFails session.output) :
    (∀ outcome reached, steps config program count (restart session) = .ok outcome reached →
      Consumes session.input.tokens (history config program count (restart session))
        reached.input) ∧
    ∀ reached failure after, steps config program count (restart session) = .ok .running reached →
      step config program reached = .error failure after →
      LeavesTokens program reached session.input.tokens
        (reads (history config program count (restart session))).length failure after.input := by
  refine ⟨fun _ _ => consumes_history, ?_⟩
  intro reached failure after hSteps hStep
  have hStart : NeverFails (restart session).output := hNever
  have hSpoils := spoils_of_step_error (neverFails_of_steps hStart hSteps) hStep
  exact hSpoils.leavesTokens (consumes_history hSteps)

def readLoop : Program :=
  ⟨#[⟨"L READ N", some "L", .read, some "N"⟩, ⟨"BU L", none, .branchAlways, some "L"⟩],
    (∅ : SymbolTable).insert "L" ⟨0, .code⟩, 4⟩

def readLoopSession : Session Script Sink :=
  ⟨{}, ⟨["7", "-12", "x", "9"]⟩, {}⟩

theorem reads_consume_readLoop :
    NeverFails readLoopSession.output ∧
      ∃ reached after site,
        steps ⟨true, none⟩ readLoop 4 (restart readLoopSession) = .ok .running reached ∧
        (reads (history ⟨true, none⟩ readLoop 4 (restart readLoopSession))).length = 2 ∧
        List.Forall₂ Executed.Stores
          (reads (history ⟨true, none⟩ readLoop 4 (restart readLoopSession))) ["7", "-12"] ∧
        reached.input = ⟨["x", "9"]⟩ ∧
        step ⟨true, none⟩ readLoop reached = .error (.fault (.invalidNumber "x" site)) after ∧
        readLoopSession.input.tokens[2]? = some "x" ∧ after.input = ⟨["9"]⟩ := by
  have hNever : NeverFails readLoopSession.output := Sink.neverFails ByteArray.empty
  obtain ⟨hConsumes, hFails⟩ := reads_consume ⟨true, none⟩ readLoop 4 readLoopSession hNever
  have hSteps : steps ⟨true, none⟩ readLoop 4 (restart readLoopSession) = .ok .running _ := rfl
  have hReads : (reads (history ⟨true, none⟩ readLoop 4 (restart readLoopSession))).length = 2 :=
    rfl
  obtain ⟨hInput, hStored⟩ := hConsumes _ _ hSteps
  have hLeaves := hFails _ (.fault (.invalidNumber "x" ⟨0, "L READ N"⟩)) _ hSteps rfl
  rw [hReads] at hInput hStored hLeaves
  obtain ⟨hWord, hLeft⟩ := hLeaves.rejected "x" ⟨_, _, rfl, rfl, rfl⟩
  exact ⟨hNever, _, _, _, hSteps, hReads, hStored, hInput, rfl, hWord, hLeft⟩

end Execution

end Accumulator
