import WordMachine.Proofs.Results
import WordMachine.Proofs.Text.Numeral
import WordMachine.Layout

/-!
# What a collector makes of an assembly

A collector without diagnostics lets an assembly through. One with diagnostics refuses it with all of them, and with
the one about the limit if it was reached; if the message of a diagnostic cannot be written, nothing is reported.
-/
namespace WordMachine.Collector

variable {c : Collector} {a b : Assembly}

theorem isBroken_eq_false_iff : c.isBroken = false ↔ ∀ d ∈ c.errors, d.isWritable = true := by
  simp [isBroken]

theorem kept_of_intact (intact : c.isBroken = false) : c.kept = c.errors :=
  List.filter_eq_self.mpr (isBroken_eq_false_iff.mp intact)

theorem isFull_of_clean (clean : c.errors = []) : c.isFull = false := by
  simp [isFull, isBroken, isAtLimit, clean]

theorem intact_of_room (room : c.isFull = false) : c.isBroken = false :=
  (Bool.or_eq_false_iff.mp room).1

/-- Below the limit, only a diagnostic that cannot be written leaves no room. -/
theorem isFull_of_length_lt (below : (c.errors.length : Int) < c.limit) : c.isFull = c.isBroken := by
  simp [isFull, isAtLimit, below]

theorem isFull_of_le_length (some : 0 < c.errors.length) (reached : c.limit ≤ c.errors.length) :
    c.isFull = true := by
  simp [isFull, isAtLimit, reached, List.ne_nil_of_length_pos some]

/-! ## Gathering -/

/-- A diagnostic more, if there is room for it. -/
inductive Gathers (c : Collector) : Collector → Prop
  | refl : Gathers c c
  | add (room : c.isFull = false) (d : Diagnostic) : Gathers c (c.add d)

/-- Only the last diagnostic may be one that cannot be written. -/
def KeptFirst (c : Collector) : Prop :=
  ∃ rest : Option Diagnostic, c.errors = c.kept ++ rest.toList

theorem keptFirst_of_clean (clean : c.errors = []) : c.KeptFirst :=
  ⟨none, by simp [kept, clean]⟩

/-- Nothing is gathered after a diagnostic that cannot be written. -/
theorem Gathers.keptFirst {d : Collector} (gathers : c.Gathers d) (first : c.KeptFirst) : d.KeptFirst := by
  cases gathers with
  | refl => exact first
  | add room d =>
    -- There was room, so whatever was gathered before can be written.
    have kept : (c.add d).kept = c.errors ++ [d].filter (·.isWritable) :=
      (List.filter_append _ _).trans (congrArg (· ++ _) (kept_of_intact (intact_of_room room)))
    rw [KeptFirst, kept]
    cases shown : d.isWritable with
    | true => exact ⟨none, by simp [Collector.add, shown]⟩
    | false => exact ⟨some d, by simp [Collector.add, shown]⟩

theorem Gathers.length_le {d : Collector} (gathers : c.Gathers d) : d.errors.length ≤ c.errors.length + 1 := by
  cases gathers <;> simp [Collector.add]

theorem Gathers.length_foldl_le {σ α : Type} (of : σ → Collector) {step : σ → α → σ}
    (gathers : ∀ s a, (of s).Gathers (of (step s a))) (s : σ) (xs : List α) :
    (of (xs.foldl step s)).errors.length ≤ (of s).errors.length + xs.length := by
  induction xs generalizing s with
  | nil => exact Nat.le_refl _
  | cons x rest ih =>
    have here := (gathers s x).length_le
    have later := ih (step s x)
    rw [List.foldl_cons, List.length_cons]
    omega

/-- However many steps gather, what cannot be written comes last. -/
theorem KeptFirst.foldl {σ α : Type} (of : σ → Collector) {step : σ → α → σ}
    (gathers : ∀ s a, (of s).Gathers (of (step s a))) {s : σ} (first : (of s).KeptFirst) (xs : List α) :
    (of (xs.foldl step s)).KeptFirst :=
  List.foldlRecOn xs step (motive := fun t => (of t).KeptFirst) first fun t earlier x _ => (gathers t x).keptFirst earlier

/-! ## The verdict -/

theorem verdict_of_clean (clean : c.errors = []) : c.verdict a = .ok a := by
  simp [verdict, isBroken, isAtLimit, hasErrors, kept, clean]

theorem verdict_of_broken (broken : c.isBroken = true) : c.verdict a = .error .unwritable := by
  simp [verdict, broken]

/-- A full collector refuses every assembly alike. -/
theorem verdict_of_full (full : c.isFull = true) : c.verdict a = c.verdict b := by
  cases broken : c.isBroken with
  | true => rw [verdict_of_broken broken, verdict_of_broken broken]
  | false =>
    have reached : c.isAtLimit = true := by simpa [isFull, broken] using full
    simp [verdict, reached]

/-- A limit that is not reached makes no difference. -/
theorem verdict_of_length_lt (below : (c.errors.length : Int) < c.limit) :
    c.verdict a = if c.isBroken then .error .unwritable else if c.hasErrors then .error (.failed c.errors) else .ok a := by
  have apart : c.isAtLimit = false := by simp [isAtLimit, below]
  simp [verdict, apart]

theorem verdict_ne_unwritable (intact : c.isBroken = false) (limit : Text.isWritable (min c.limit 0) = true) :
    c.verdict a ≠ .error .unwritable := by
  unfold verdict
  rw [if_neg (by simp [intact]), if_pos limit]
  split
  · nofun
  · split <;> nofun

/-- A positive limit that is reached is reported after the diagnostics. -/
theorem verdict_of_le_length (intact : c.isBroken = false) (one : 1 ≤ c.limit) (reached : c.limit ≤ c.errors.length) :
    c.verdict a = .error (.failed (c.errors ++ [c.stop])) := by
  have full := isFull_of_le_length (by omega) reached
  have limit : Text.isWritable (min c.limit 0) = true := by
    rw [min_eq_right (by omega)]
    exact Text.isWritable_of_lt (n := 0) (by decide)
  simp [verdict, intact, limit, show c.isAtLimit = true by simpa [isFull, intact] using full]

/-- With room left all diagnostics are reported, and no others. -/
theorem verdict_of_room (room : c.isFull = false) (problems : c.errors ≠ []) :
    c.verdict a = .error (.failed c.errors) := by
  obtain ⟨intact, below⟩ := Bool.or_eq_false_iff.mp room
  have some : c.hasErrors = true := by simpa [hasErrors, kept_of_intact intact] using problems
  simp [verdict, intact, below, some]

/-- Some diagnostic is reported, unless one of them or the limit cannot be written. -/
theorem exists_verdict_failed (problems : c.errors ≠ []) (intact : c.isBroken = false)
    (limit : Text.isWritable (min c.limit 0) = true) :
    ∃ errors, c.verdict a = .error (.failed errors) ∧ errors ≠ [] := by
  cases reached : c.isAtLimit with
  | true => exact ⟨c.errors ++ [c.stop], by simp [verdict, intact, reached, limit], by simp⟩
  | false => exact ⟨c.errors, verdict_of_room (by simp [isFull, intact, reached]) problems, problems⟩

/-- A file with problems is not assembled. -/
theorem verdict_of_problems (problems : c.errors ≠ []) :
    (∃ errors, c.verdict a = .error (.failed errors) ∧ errors ≠ []) ∨ c.verdict a = .error .unwritable := by
  cases intact : c.isBroken with
  | true => exact Or.inr (verdict_of_broken intact)
  | false =>
    cases limit : Text.isWritable (min c.limit 0) with
    | true => exact Or.inl (exists_verdict_failed problems intact limit)
    | false =>
      cases reached : c.isAtLimit with
      | true => exact Or.inr (by simp [verdict, intact, reached, limit])
      | false =>
        exact Or.inl ⟨c.errors, verdict_of_room (by simp [isFull, intact, reached]) problems, problems⟩

/-- What is reported are the diagnostics, and the one about the limit if it is reached. -/
theorem errors_of_verdict_failed {errors : List Diagnostic} (failed : c.verdict a = .error (.failed errors)) :
    errors = c.errors ++ [c.stop] ∨ errors = c.errors := by
  unfold verdict at failed
  split at failed
  · cases failed
  split at failed
  · split at failed
    · exact Or.inl (GenerationError.failed.inj (Except.error.inj failed)).symm
    · cases failed
  · split at failed
    · exact Or.inr (GenerationError.failed.inj (Except.error.inj failed)).symm
    · cases failed

/-- An assembly is let through exactly if there is no diagnostic. -/
theorem verdict_eq_ok_iff : c.verdict a = .ok b ↔ c.errors = [] ∧ a = b := by
  by_cases clean : c.errors = []
  · simp [verdict_of_clean clean, clean]
  · rcases verdict_of_problems (a := a) clean with ⟨errors, failed, -⟩ | unwritable
    · simp [failed, clean]
    · simp [unwritable, clean]

end WordMachine.Collector
