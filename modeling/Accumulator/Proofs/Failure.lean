/-! # Computations that may fail

What a computation in two parts gives when it succeeds and when it fails, and what reading a list
from the front gives: either every element has its result, or the first that has none gives the
fault.
-/

namespace Accumulator

set_option autoImplicit false

variable {ε α β : Type} {f : α → Except ε β}

theorem exists_of_bind_eq_ok {first : Except ε α} {rest : α → Except ε β}
    {result : β} (h : first >>= rest = .ok result) :
    ∃ value, first = .ok value ∧ rest value = .ok result := by
  cases first with
  | error fault => cases h
  | ok value => exact ⟨value, rfl, h⟩

theorem eq_error_or_of_bind_eq_error {first : Except ε α} {rest : α → Except ε β}
    {fault : ε} (h : first >>= rest = .error fault) :
    first = .error fault ∨ ∃ value, first = .ok value ∧ rest value = .error fault := by
  cases first with
  | error _ =>
    cases h
    exact .inl rfl
  | ok value => exact .inr ⟨value, rfl, h⟩

theorem mapError_bind {δ : Type} (g : ε → δ) (first : Except ε α) (rest : α → Except ε β) :
    (first >>= rest).mapError g = first.mapError g >>= fun value => (rest value).mapError g := by
  cases first <;> rfl

theorem mapM_eq_ok_iff {xs : List α} {ys : List β} :
    xs.mapM f = .ok ys ↔ xs.map f = ys.map .ok := by
  induction xs generalizing ys with
  | nil => cases ys <;> simp [pure, Except.pure]
  | cons x xs ih =>
    rw [List.mapM_cons, List.map_cons]
    cases hHead : f x with
    | error fault => cases ys <;> simp [bind, Except.bind]
    | ok y =>
      cases hTail : xs.mapM f with
      | error fault =>
        have hNever : ∀ zs : List β, xs.map f ≠ zs.map .ok := by
          intro zs hZs
          rw [ih.mpr hZs] at hTail
          cases hTail
        cases ys <;> simp [bind, Except.bind, hNever]
      | ok zs =>
        have hZs := ih.mp hTail
        cases ys with
        | nil => simp [bind, Except.bind, pure, Except.pure]
        | cons y ys => simp [bind, Except.bind, pure, Except.pure, ← ih, hTail]

theorem mapM_eq_error_iff {xs : List α} {fault : ε} :
    xs.mapM f = .error fault ↔ ∃ front x back, ∃ ys : List β,
      xs = front ++ x :: back ∧ front.map f = ys.map .ok ∧ f x = .error fault := by
  induction xs with
  | nil => simp [pure, Except.pure]
  | cons x xs ih =>
    rw [List.mapM_cons]
    constructor
    · intro h
      cases hHead : f x with
      | error cause =>
        rw [hHead] at h
        cases h
        exact ⟨[], x, xs, [], rfl, rfl, hHead⟩
      | ok y =>
        cases hTail : xs.mapM f with
        | ok ys => simp [hHead, hTail, bind, Except.bind, pure, Except.pure] at h
        | error cause =>
          have hSame : cause = fault := by
            simpa [hHead, hTail, bind, Except.bind] using h
          subst hSame
          obtain ⟨front, z, back, ys, rfl, hFront, hFault⟩ := ih.mp hTail
          exact ⟨x :: front, z, back, y :: ys, rfl, by simp [hHead, hFront], hFault⟩
    · rintro ⟨front, z, back, ys, hSplit, hFront, hFault⟩
      cases front with
      | nil =>
        cases hSplit
        rw [hFault]
        rfl
      | cons first front =>
        cases hSplit
        cases ys with
        | nil => simp at hFront
        | cons y ys =>
          obtain ⟨hHead, hRest⟩ := List.cons.inj hFront
          have hTail := ih.mpr ⟨front, z, back, ys, rfl, hRest, hFault⟩
          rw [hHead, hTail]
          rfl

/-- A traversal in which every element has a result keeps all the results. -/
theorem filterMapM_eq_ok_iff {g : α → Except ε (Option β)} {xs : List α}
    (hSome : ∀ x ∈ xs, g x ≠ .ok none) {ys : List β} :
    xs.filterMapM g = .ok ys ↔ xs.map g = ys.map fun y => .ok (some y) := by
  induction xs generalizing ys with
  | nil => cases ys <;> simp [pure, Except.pure]
  | cons x xs ih =>
    have hHead := hSome x List.mem_cons_self
    have hTail : ∀ {zs : List β},
        xs.filterMapM g = .ok zs ↔ xs.map g = zs.map fun y => .ok (some y) :=
      ih fun x hMem => hSome x (List.mem_cons_of_mem _ hMem)
    rw [List.filterMapM_cons, List.map_cons]
    cases hFirst : g x with
    | error fault => cases ys <;> simp [bind, Except.bind]
    | ok first =>
      cases first with
      | none => exact absurd hFirst hHead
      | some y =>
        cases hRest : xs.filterMapM g with
        | error fault =>
          have hNever : ∀ zs : List β, xs.map g ≠ zs.map fun y => .ok (some y) := by
            intro zs hZs
            rw [hTail.mpr hZs] at hRest
            cases hRest
          cases ys <;> simp [bind, Except.bind, hNever]
        | ok zs =>
          cases ys with
          | nil => simp [bind, Except.bind, pure, Except.pure]
          | cons z ys => simp [bind, Except.bind, pure, Except.pure, ← hTail, hRest]

theorem exists_mem_of_filterMapM_eq_error {g : α → Except ε (Option β)} {xs : List α} {fault : ε}
    (h : xs.filterMapM g = .error fault) : ∃ x ∈ xs, g x = .error fault := by
  induction xs with
  | nil => cases h
  | cons x xs ih =>
    rw [List.filterMapM_cons] at h
    rcases eq_error_or_of_bind_eq_error h with hHead | ⟨first, _, hRest⟩
    · exact ⟨x, List.mem_cons_self, hHead⟩
    · suffices hTail : xs.filterMapM g = .error fault by
        obtain ⟨z, hMem, hFault⟩ := ih hTail
        exact ⟨z, List.mem_cons_of_mem _ hMem, hFault⟩
      cases first with
      | none => exact hRest
      | some y =>
        rcases eq_error_or_of_bind_eq_error hRest with hTail | ⟨_, _, hDone⟩
        · exact hTail
        · cases hDone

/-- What every result leads back to its element leads the list of results back to the list. -/
theorem map_eq_of_map_eq_map_ok {g : β → α} (hBack : ∀ x y, f x = .ok y → g y = x) {xs : List α}
    {ys : List β} (h : xs.map f = ys.map .ok) : ys.map g = xs := by
  induction xs generalizing ys with
  | nil =>
    cases ys with
    | nil => rfl
    | cons y ys => cases h
  | cons x xs ih =>
    cases ys with
    | nil => cases h
    | cons y ys =>
      obtain ⟨hHead, hTail⟩ := List.cons.inj h
      rw [List.map_cons, hBack x y hHead, ih hTail]

theorem getElem?_of_map_eq_map_ok {xs : List α} {ys : List β} (h : xs.map f = ys.map .ok)
    {index : Nat} {y : β} (hFound : ys[index]? = some y) :
    ∃ x, xs[index]? = some x ∧ f x = .ok y := by
  have hSame := congrArg (fun results => results[index]?) h
  simp only [List.getElem?_map, hFound] at hSame
  exact Option.map_eq_some_iff.mp hSame

end Accumulator
