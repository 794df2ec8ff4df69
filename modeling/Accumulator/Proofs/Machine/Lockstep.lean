import Accumulator.Proofs.Machine.Steps

/-! # Computations in lockstep

Two computations are in lockstep for a relation of sessions if, from related sessions, they give
the same value or the same failure and leave related sessions. The sessions may be on different
devices. One computation follows another if it is in lockstep with it until it gives up, and what
relates the two from then on stays true however long the other goes on. What a relation has to
respect or to tolerate is the little that a step does with a session; it then passes to whole
steps, to rows of steps and to runs.
-/

namespace Accumulator.Execution

set_option autoImplicit false

variable {ι ω κ χ : Type} {R : Session ι ω → Session κ χ → Prop} {α β : Type}

/-- Results with the same value or the same failure, and related sessions. -/
inductive Alike (R : Session ι ω → Session κ χ → Prop) :
    EStateM.Result Failure (Session ι ω) α → EStateM.Result Failure (Session κ χ) α → Prop
  | ok (value : α) {left : Session ι ω} {right : Session κ χ} (h : R left right) :
      Alike R (.ok value left) (.ok value right)
  | error (failure : Failure) {left : Session ι ω} {right : Session κ χ} (h : R left right) :
      Alike R (.error failure left) (.error failure right)

theorem Alike.final {left : EStateM.Result Failure (Session ι ω) α}
    {right : EStateM.Result Failure (Session κ χ) α} (h : Alike R left right) :
    R (final left) (final right) := by
  cases h with
  | ok _ h | error _ h => exact h

def Lockstep (R : Session ι ω → Session κ χ → Prop) (first : Execution ι ω α)
    (second : Execution κ χ α) : Prop :=
  ∀ left right, R left right → Alike R (first left) (second right)

theorem Lockstep.pure (value : α) : Lockstep R (pure value) (pure value) :=
  fun _ _ h => .ok value h

/-- Reads of one input are in lockstep for a relation to which it does not matter what the input
is, as long as it is the same on both sides. -/
theorem lockstep_takeInput [InputDevice ι] {R : Session ι ω → Session ι χ → Prop}
    (hInput : ∀ left right, R left right → left.input = right.input)
    (hNext : ∀ left right input, R left right →
      R ⟨left.state, input, left.output⟩ ⟨right.state, input, right.output⟩) (site : Site) :
    Lockstep R (takeInput site) (takeInput site) := by
  intro left right h
  simp only [takeInput, hInput left right h]
  split
  · exact .ok _ (hNext left right _ h)
  · exact .error _ (hNext left right _ h)

/-! ## Lockstep until one side gives up -/

variable {Lost : Session ι ω → Failure → Session κ χ → Prop}

/-- Results alike, or a second computation that has given up. The failure and the session that it
gave up with are then related to the session that the first one leaves. -/
inductive AlikeUnless (R : Session ι ω → Session κ χ → Prop)
    (Lost : Session ι ω → Failure → Session κ χ → Prop) :
    EStateM.Result Failure (Session ι ω) α → EStateM.Result Failure (Session κ χ) α → Prop
  | alike {left : EStateM.Result Failure (Session ι ω) α}
      {right : EStateM.Result Failure (Session κ χ) α} (h : Alike R left right) :
      AlikeUnless R Lost left right
  | lost {left : EStateM.Result Failure (Session ι ω) α} {failure : Failure} {right : Session κ χ}
      (h : Lost (final left) failure right) : AlikeUnless R Lost left (.error failure right)

structure Follows (R : Session ι ω → Session κ χ → Prop)
    (Lost : Session ι ω → Failure → Session κ χ → Prop) (first : Execution ι ω α)
    (second : Execution κ χ α) : Prop where
  alike : ∀ left right, R left right → AlikeUnless R Lost (first left) (second right)
  lost : ∀ left failure right, Lost left failure right → Lost (final (first left)) failure right

namespace Follows

theorem of_lockstep {first : Execution ι ω α} {second : Execution κ χ α}
    (hLockstep : Lockstep R first second)
    (hLost : ∀ left failure right, Lost left failure right →
      Lost (final (first left)) failure right) :
    Follows R Lost first second :=
  ⟨fun left right h => .alike (hLockstep left right h), hLost⟩

theorem lockstep {first : Execution ι ω α} {second : Execution κ χ α}
    (h : Follows R (fun _ _ _ => False) first second) : Lockstep R first second := by
  intro left right hStart
  have hAlike := h.alike left right hStart
  generalize first left = reached, second right = other at hAlike ⊢
  cases hAlike with
  | alike hAlike => exact hAlike
  | lost hLost => cases hLost

theorem pure (value : α) : Follows R Lost (pure value) (pure value) :=
  of_lockstep (.pure value) fun _ _ _ h => h

theorem throw (failure : Failure) :
    Follows R Lost (throw failure : Execution ι ω α) (throw failure : Execution κ χ α) :=
  of_lockstep (fun _ _ h => .error failure h) fun _ _ _ h => h

theorem traced {config : Config} {first : Execution ι ω Unit} {second : Execution κ χ Unit}
    (h : Follows R Lost first second) :
    Follows R Lost (traced config first) (traced config second) := by
  unfold Execution.traced
  split
  · exact h
  · exact .pure ()

theorem require {ε : Type} (failure : ε → Failure) (computed : Except ε α) :
    Follows R Lost (require failure computed) (require failure computed) := by
  cases computed with
  | error cause => exact .throw (failure cause)
  | ok value => exact .pure value

theorem bind {first : Execution ι ω α} {second : Execution κ χ α} {next : α → Execution ι ω β}
    {after : α → Execution κ χ β} (hFirst : Follows R Lost first second)
    (hRest : ∀ value, Follows R Lost (next value) (after value)) :
    Follows R Lost (first >>= next) (second >>= after) where
  alike left right h := by
    change AlikeUnless R Lost (EStateM.bind first next left) (EStateM.bind second after right)
    have hAlike := hFirst.alike left right h
    unfold EStateM.bind
    generalize first left = reached, second right = other at hAlike ⊢
    cases hAlike with
    | alike hAlike =>
      cases hAlike with
      | ok value hReached => exact (hRest value).alike _ _ hReached
      | error failure hReached => exact .alike (.error failure hReached)
    | lost hLost =>
      cases reached with
      | ok value reached => exact .lost ((hRest value).lost _ _ _ hLost)
      | error failure reached => exact .lost hLost
  lost left failure right h := by
    change Lost (final (EStateM.bind first next left)) failure right
    have hLost := hFirst.lost left failure right h
    unfold EStateM.bind
    generalize first left = reached at hLost ⊢
    cases reached with
    | ok value reached => exact (hRest value).lost _ _ _ hLost
    | error cause reached => exact hLost

theorem showLine [OutputDevice ω] [OutputDevice χ]
    (h : ∀ text, Follows R Lost (emit text) (emit text)) (program : Program) (index : Nat) :
    Follows R Lost (showLine program index) (showLine program index) :=
  .bind (.require _ _) fun _ => h _

end Follows

section Devices

variable [InputDevice ι] [OutputDevice ω] [InputDevice κ] [OutputDevice χ]
  {config other : Config} {program : Program}

/-- Under the relations, all that a step does with a session is followed, under the settings of
either side. -/
structure Tolerates (R : Session ι ω → Session κ χ → Prop)
    (Lost : Session ι ω → Failure → Session κ χ → Prop) (config other : Config) : Prop where
  state : ∀ left right, R left right → left.state = right.state
  limit : config.stepLimit = other.stepLimit
  change : ∀ update, Follows R Lost (change update) (change update)
  takeInput : ∀ site, Follows R Lost (takeInput site) (takeInput site)
  emit : ∀ text, Follows R Lost (emit text) (emit text)
  echo : ∀ text, Follows R Lost (echo config text) (echo other text)
  traceLine : ∀ program index,
    Follows R Lost (traced config (showLine program index)) (traced other (showLine program index))
  flush : Follows R Lost (onOutput OutputDevice.flush) (onOutput OutputDevice.flush)

namespace Tolerates

theorem assign (h : Tolerates R Lost config other) (name : String) (value : Word) :
    Follows R Lost (assign config name value) (assign other name value) :=
  .bind (h.change _) fun _ => h.echo _

theorem announce (h : Tolerates R Lost config other) (instruction : Instruction) (index : Nat) :
    Follows R Lost (announce config program instruction index)
      (announce other program instruction index) := by
  unfold Execution.announce
  by_cases hRead : instruction.opcode = .read
  · rw [if_pos (.inr hRead), if_pos (.inr hRead)]
    exact .showLine h.emit program index
  · simp only [hRead, or_false]
    exact h.traceLine program index

theorem perform (h : Tolerates R Lost config other) (site : Site) (effect : Effect) :
    Follows R Lost (perform config program site effect) (perform other program site effect) := by
  cases effect with
  | compute value =>
    refine .bind (h.change _) fun _ => ?_
    exact .bind (h.echo _) fun _ => .pure _
  | store name value => exact .bind (h.assign name value) fun _ => .pure _
  | print operand value =>
    refine .bind (h.echo _) fun _ => ?_
    exact .bind (h.emit _) fun _ => .pure _
  | branch taken label =>
    refine .bind (h.echo _) fun _ => ?_
    cases taken with
    | false => exact .pure _
    | true => exact .bind (.require _ _) fun _ => .pure _
  | read name =>
    refine .bind h.flush fun _ => ?_
    refine .bind (h.takeInput site) fun value => ?_
    exact .bind (h.assign name _) fun _ => .pure _
  | halt => exact .bind (h.emit _) fun _ => .pure _

theorem advance (h : Tolerates R Lost config other) (next : Option Nat) :
    Follows R Lost (advance next) (advance next) := by
  refine .bind (h.change _) fun _ => ?_
  cases next with
  | none => exact .pure _
  | some index => exact .bind (h.change _) fun _ => .pure _

theorem execute (h : Tolerates R Lost config other) (state : MachineState) :
    Follows R Lost (execute config program state) (execute other program state) := by
  unfold Execution.execute Config.spentLimit?
  rw [h.limit]
  split
  · exact .pure _
  · dsimp only
    split
    · exact .throw _
    · refine .bind (h.announce _ _) fun _ => ?_
      refine .bind (.require _ _) fun effect => ?_
      exact .bind (h.perform _ effect) fun next => h.advance next

theorem step (h : Tolerates R Lost config other) :
    Follows R Lost (step config program) (step other program) where
  alike left right hRelated := by
    change AlikeUnless R Lost (Execution.execute config program left.state left)
      (Execution.execute other program right.state right)
    rw [h.state left right hRelated]
    exact (h.execute right.state).alike left right hRelated
  lost left failure right hLost := (h.execute left.state).lost left failure right hLost

theorem steps (h : Tolerates R Lost config other) (program : Program) (count : Nat) :
    Follows R Lost (steps config program count) (steps other program count) := by
  induction count with
  | zero => exact .pure StepOutcome.running
  | succ count ih =>
    refine .bind h.step fun outcome => ?_
    cases outcome with
    | running => exact ih
    | finished termination => exact .pure (StepOutcome.finished termination)

end Tolerates

/-! ## Lockstep to the end -/

/-- The relation is kept by all that a step does with a session. -/
structure Respects (R : Session ι ω → Session κ χ → Prop) : Prop where
  state : ∀ left right, R left right → left.state = right.state
  change : ∀ update, Lockstep R (change update) (change update)
  takeInput : ∀ site, Lockstep R (takeInput site) (takeInput site)
  emit : ∀ text, Lockstep R (emit text) (emit text)
  flush : Lockstep R (onOutput OutputDevice.flush) (onOutput OutputDevice.flush)

omit [InputDevice ι] [InputDevice κ] in
theorem Alike.conclude (hFlush : Lockstep R (onOutput OutputDevice.flush)
      (onOutput OutputDevice.flush)) {left : RunResult ι ω} {right : RunResult κ χ}
    (hAlike : Alike R left right) : Alike R (conclude left) (conclude right) := by
  cases hAlike with
  | @ok outcome left right hReached =>
    have hFlushed := hFlush left right hReached
    simp only [Execution.conclude]
    generalize onOutput OutputDevice.flush left = first,
      onOutput OutputDevice.flush right = second at hFlushed ⊢
    cases hFlushed with
    | ok _ hDone => exact .ok outcome hDone
    | error failure hDone => exact .error failure hDone
  | @error failure left right hReached =>
    cases failure with
    | crash crash => exact .error _ hReached
    | fault fault =>
      have hFlushed := hFlush left right hReached
      simp only [Execution.conclude]
      generalize onOutput OutputDevice.flush left = first,
        onOutput OutputDevice.flush right = second at hFlushed ⊢
      cases hFlushed with
      | ok _ hDone | error _ hDone => exact .error _ hDone

/-- Runs whose steps are alike both go on or end alike. -/
theorem Alike.run (hState : ∀ left right, R left right → left.state = right.state)
    (hFlush : Lockstep R (onOutput OutputDevice.flush) (onOutput OutputDevice.flush))
    {left : Session ι ω} {right : Session κ χ} {fuel : Nat}
    (hAlike : Alike R (steps config program fuel (restart left))
      (steps other program fuel (restart right))) :
    Option.Rel (Alike R) (run fuel config program left) (run fuel other program right) := by
  rw [Execution.run, Execution.run, iterate_eq_steps, iterate_eq_steps]
  generalize steps config program fuel (restart left) = reached,
    steps other program fuel (restart right) = reached' at hAlike ⊢
  cases hAlike with
  | error failure hReached => exact .some (.conclude hFlush (.error failure hReached))
  | ok outcome hReached =>
    cases outcome with
    | running => exact .none
    | finished termination =>
      refine .some (.conclude hFlush ?_)
      rw [hState _ _ hReached]
      exact .ok _ hReached

namespace Respects

/-- Lockstep is following without ever giving up, under the same settings. -/
theorem tolerates (h : Respects R) (config : Config) :
    Tolerates R (fun _ _ _ => False) config config where
  state := h.state
  limit := rfl
  change update := .of_lockstep (h.change update) nofun
  takeInput site := .of_lockstep (h.takeInput site) nofun
  emit text := .of_lockstep (h.emit text) nofun
  echo text := .traced (.of_lockstep (h.emit text) nofun)
  traceLine _ _ := .traced (.showLine (fun text => .of_lockstep (h.emit text) nofun) _ _)
  flush := .of_lockstep h.flush nofun

theorem step (h : Respects R) (config : Config) (program : Program) :
    Lockstep R (step config program) (step config program) :=
  (h.tolerates config).step.lockstep

theorem steps (h : Respects R) (config : Config) (program : Program) (count : Nat) :
    Lockstep R (steps config program count) (steps config program count) :=
  ((h.tolerates config).steps program count).lockstep

/-- Two runs both go on for ever or end alike. -/
theorem run (h : Respects R) {left : Session ι ω} {right : Session κ χ}
    (hStart : R (restart left) (restart right)) (config : Config) (program : Program)
    (fuel : Nat) :
    Option.Rel (Alike R) (run fuel config program left) (run fuel config program right) :=
  Alike.run h.state h.flush (h.steps config program fuel _ _ hStart)

end Respects

end Devices

end Accumulator.Execution
