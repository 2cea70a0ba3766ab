import Mathlib

/-!
# Results that are there

A chain of steps that may fail succeeds exactly when each step does, and what is made of a result or of an
error is made of that and of nothing else.
-/
namespace WordMachine

variable {ε δ α β : Type}

theorem bind_eq_ok_iff {step : Except ε α} {next : α → Except ε β} {value : β} :
    step >>= next = .ok value ↔ ∃ a, step = .ok a ∧ next a = .ok value := by
  cases step with
  | error e => simp [bind, Except.bind]
  | ok a => simp [bind, Except.bind]

theorem bind_eq_error_iff {step : Except ε α} {next : α → Except ε β} {e : ε} :
    step >>= next = .error e ↔ step = .error e ∨ ∃ a, step = .ok a ∧ next a = .error e := by
  cases step with
  | error d => simp [bind, Except.bind]
  | ok a => simp [bind, Except.bind]

theorem map_eq_ok_iff {f : α → β} {step : Except ε α} {value : β} :
    f <$> step = .ok value ↔ ∃ a, step = .ok a ∧ f a = value := by
  cases step with
  | error e => simp [Functor.map, Except.map]
  | ok a => simp [Functor.map, Except.map]

theorem mapError_eq_ok_iff {f : ε → δ} {step : Except ε α} {value : α} :
    step.mapError f = .ok value ↔ step = .ok value := by
  cases step <;> simp [Except.mapError]

theorem map_eq_error_iff {f : α → β} {step : Except ε α} {e : ε} :
    f <$> step = .error e ↔ step = .error e := by
  cases step <;> simp [Functor.map, Except.map]

theorem mapError_eq_error_iff {f : ε → δ} {step : Except ε α} {d : δ} :
    step.mapError f = .error d ↔ ∃ e, step = .error e ∧ f e = d := by
  cases step <;> simp [Except.mapError]

/-- A step for each member of a list gives a list when each step succeeds, and the results are in order. -/
theorem mapM_eq_ok_iff {f : α → Except ε β} {xs : List α} {ys : List β} :
    xs.mapM f = .ok ys ↔ List.Forall₂ (fun x y => f x = .ok y) xs ys := by
  induction xs generalizing ys with
  | nil => cases ys <;> simp [pure, Except.pure]
  | cons x xs ih =>
    simp only [List.mapM_cons, bind_eq_ok_iff, List.forall₂_cons_left_iff, ih]
    constructor
    · rintro ⟨y, first, ys, others, made⟩
      exact ⟨y, ys, first, others, (Except.ok.inj made).symm⟩
    · rintro ⟨y, ys, first, others, rfl⟩
      exact ⟨y, first, ys, others, rfl⟩

/-- A list goes through exactly if each of its elements does. -/
theorem exists_mapM_ok_iff {f : α → Except ε β} {xs : List α} :
    (∃ ys, xs.mapM f = .ok ys) ↔ ∀ x ∈ xs, ∃ y, f x = .ok y := by
  simp only [mapM_eq_ok_iff]
  induction xs with
  | nil => simp
  | cons x xs ih =>
    rw [List.forall_mem_cons, ← ih]
    constructor
    · rintro ⟨zs, pairs⟩
      cases pairs with
      | cons first others => exact ⟨⟨_, first⟩, _, others⟩
    · rintro ⟨⟨y, first⟩, ys, others⟩
      exact ⟨y :: ys, .cons first others⟩

/-- What is related to the members of a list is related to one of them. -/
theorem exists_of_forall₂ {R : α → β → Prop} {xs : List α} {ys : List β} {y : β} (related : List.Forall₂ R xs ys)
    (member : y ∈ ys) : ∃ x ∈ xs, R x y := by
  induction related with
  | nil => cases member
  | cons first others ih =>
    rcases List.mem_cons.mp member with rfl | later
    · exact ⟨_, List.mem_cons_self, first⟩
    · obtain ⟨x, found, here⟩ := ih later
      exact ⟨x, List.mem_cons_of_mem _ found, here⟩

/-- Each result of a list of steps is the result of one of them. -/
theorem exists_of_mem_mapM {f : α → Except ε β} {xs : List α} {ys : List β} {y : β}
    (made : xs.mapM f = .ok ys) (member : y ∈ ys) : ∃ x ∈ xs, f x = .ok y :=
  exists_of_forall₂ (R := fun x y => f x = .ok y) (mapM_eq_ok_iff.mp made) member

/-- A list of steps fails with the error of one of them. -/
theorem exists_of_mapM_error {f : α → Except ε β} {xs : List α} {e : ε} (failed : xs.mapM f = .error e) :
    ∃ x ∈ xs, f x = .error e := by
  induction xs with
  | nil => cases failed
  | cons x xs ih =>
    rw [List.mapM_cons] at failed
    cases first : f x with
    | error d =>
      rw [first] at failed
      cases failed
      exact ⟨x, List.mem_cons_self, first⟩
    | ok y =>
      rw [first] at failed
      cases others : xs.mapM f with
      | error d =>
        obtain ⟨later, member, refused⟩ := ih (by rw [others] at failed ⊢; exact failed)
        exact ⟨later, List.mem_cons_of_mem x member, refused⟩
      | ok ys =>
        rw [others] at failed
        cases failed

theorem isOk_iff {step : Except ε α} : step.isOk = true ↔ ∃ a, step = .ok a := by
  cases step with
  | error e => simp [Except.isOk, Except.toBool]
  | ok a => simp [Except.isOk, Except.toBool]

def error? (step : Except ε α) : Option ε :=
  match step with
  | .error e => some e
  | .ok _ => none

theorem error?_eq_some_iff {step : Except ε α} {e : ε} : error? step = some e ↔ step = .error e := by
  cases step <;> simp [error?]

end WordMachine
