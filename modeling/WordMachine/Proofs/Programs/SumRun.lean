import WordMachine.Proofs.Machine.Limit
import WordMachine.Proofs.Machine.PlainStep
import WordMachine.Proofs.Machine.StepOutcome

/-!
# Running a program that sums

Memory has the instructions that take the first of some values and add the others to it, print the sum and stop.
After some of the steps accumulator 1 holds the sum of as many values, which is the invariant here; it is kept as
long as these sums fit. The first sum that does not fit ends the run.
-/
namespace WordMachine

open Machine

/-- Memory has a program that sums values, from location 8 on. -/
structure Memory.Sums (memory : Memory) (values : List Int) : Prop where
  value : ∀ k (low : k < values.length), ∃ slot, 8 ≤ slot ∧ slot < memory.size ∧
    memory.Has (8 + k) (if k = 0 then .take else .add) 1 slot ∧ (memory.get slot).HoldsInteger values[k]
  print : memory.Has (8 + values.length) .extra 1 Routine.print.number
  stop : memory.Has (9 + values.length) .extra 1 Routine.stop.number

/-- The machine after the first `k` values, in the middle of its run. -/
structure Machine.Summed (values : List Int) (k : Nat) (m : Machine) : Prop where
  program : m.memory.Sums values
  live : m.status.isTerminal = false
  counter : m.counter = 8 + (k : Int)
  steps : m.steps = k
  silent : m.printed = #[]
  sum : 0 < k → (m.memory.accumulator 1).HoldsInteger (values.take k).sum

/-! ## Memory -/

theorem Memory.Has.set {memory : Memory} {location : Nat} {mnemonic : Mnemonic} {n : Fin 8} {address : Nat}
    (has : memory.Has location mnemonic n address) {other : Nat} (apart : other ≠ location) (w : Word) :
    (memory.set other w).Has location mnemonic n address := by
  rwa [Memory.Has, Memory.size_set, Memory.get_set_ne memory apart]

/-- The program is above the accumulators. -/
theorem Memory.Sums.set {memory : Memory} {values : List Int} (sums : memory.Sums values) (w : Word) :
    (memory.set 1 w).Sums values where
  value k low := by
    obtain ⟨slot, above, inside, has, holds⟩ := sums.value k low
    refine ⟨slot, above, by rwa [Memory.size_set], has.set (by omega) w, ?_⟩
    rwa [Memory.get_set_ne memory (by omega)]
  print := sums.print.set (by omega) w
  stop := sums.stop.set (by omega) w

namespace Machine

variable {values : List Int} {k : Nat} {m : Machine}

/-! ## One value -/

/-- Taking or adding the next value makes the next sum, or faults with a cause that can be written if it does not
fit. -/
inductive Adds (values : List Int) (k : Nat) (m : Machine) (i : Instruction) : Prop where
  | held {w : Word} (holds : w.HoldsInteger (values.take (k + 1)).sum)
      (executed : m.execute i = (m.supply, .ok (m.setAccumulator 1 w)))
  | refused {cause : FaultCause} (unfit : ¬ Word.fits (values.take (k + 1)).sum)
      (executed : m.execute i = (m.supply, .error (.fault cause))) (kind : cause.kind = .registerOutOfRange)
      (written : cause.isWritable = true)

/-- While values are left, the next step takes or adds one. -/
theorem Summed.adds (summed : m.Summed values k) (low : k < values.length) :
    ∃ i, m.fetch = .ok i ∧ Adds values k m i := by
  obtain ⟨slot, -, inside, has, holds⟩ := summed.program.value k low
  obtain ⟨i, fetched, plain⟩ := fetch_of_has has (by rw [summed.counter]; rfl)
  refine ⟨i, fetched, ?_⟩
  have sum : (values.take (k + 1)).sum = (values.take k).sum + values[k] := List.sum_take_succ values k low
  cases k with
  | zero =>
    refine .held ?_ (execute_take plain inside)
    simpa [sum] using holds
  | succ k =>
    have before := summed.sum (Nat.succ_pos k)
    have executed := execute_add plain inside before holds
    rw [← sum] at executed
    by_cases fits : Word.fits (values.take (k + 1 + 1)).sum
    · obtain ⟨w, made, same⟩ := exists_wordOf fits
      exact .held same (by rw [executed, made]; rfl)
    · have first := Word.natAbs_le_of_fits before.fits
      have second := Word.natAbs_le_of_fits holds.fits
      have short : Text.isWritable (values.take (k + 1 + 1)).sum = true :=
        Text.isWritable_of_natAbs_lt (by rw [sum]; omega)
      have refused : m.execute i =
          (m.supply, .error (.fault (.word (.integerRange (values.take (k + 1 + 1)).sum)))) := by
        rw [executed, wordOf_eq_error fits]
        rfl
      exact .refused fits refused rfl short

/-- A sum that fits is made in one step. -/
theorem Summed.next (summed : m.Summed values k) (low : k < values.length)
    (fits : Word.fits (values.take (k + 1)).sum) : ∃ next, m.step = (next, none) ∧ next.Summed values (k + 1) := by
  obtain ⟨i, fetched, adds⟩ := summed.adds low
  cases adds with
  | @held w holds executed =>
    refine ⟨_, step_of_completed summed.live fetched executed, ?_⟩
    constructor
    case program => exact summed.program.set w
    case live => rfl
    case counter =>
      show m.counter + 1 = _
      rw [summed.counter]
      push_cast
      ring
    case steps => exact congrArg (· + 1) summed.steps
    case silent => exact summed.silent
    case sum =>
      intro _
      have room : 1 < m.memory.size := Nat.lt_of_lt_of_le (by decide) m.memory.holds_accumulators
      show ((m.memory.set 1 w).get 1).HoldsInteger _
      rwa [Memory.get_set_self room]
  | refused unfit => exact absurd fits unfit

/-- The first sum that does not fit ends the run, and all else stays as it was. -/
theorem Summed.overflows (summed : m.Summed values k) (low : k < values.length)
    (unfit : ¬ Word.fits (values.take (k + 1)).sum) :
    ∃ f : Fault, m.step = ({ m with status := .faulted f }, some (.fault f)) ∧
      f.cause.kind = .registerOutOfRange ∧ f.location = 8 + (k : Int) ∧ f.steps = k := by
  obtain ⟨i, fetched, adds⟩ := summed.adds low
  cases adds with
  | held holds => exact absurd holds.fits unfit
  | @refused cause _ executed kind written =>
    refine ⟨⟨cause, m.counter, some (shownName i), m.steps⟩, ?_, kind, summed.counter, ?_⟩
    · rw [step_of_faulted summed.live fetched executed]
      exact faultWith_of_writable m written _
    · exact congrArg Nat.cast summed.steps

/-! ## All values -/

/-- As long as the sums fit, the run goes on. -/
theorem Summed.lasts (start : m.Summed values 0) (low : k ≤ values.length)
    (fits : ∀ j ≤ k, Word.fits (values.take j).sum) : ∃ last, m.Lasts k last ∧ last.Summed values k := by
  induction k with
  | zero => exact ⟨m, ⟨rfl, start.live⟩, start⟩
  | succ k ih =>
    obtain ⟨last, lasts, summed⟩ := ih (by omega) fun j less => fits j (by omega)
    obtain ⟨next, result, more⟩ := summed.next low (fits (k + 1) le_rfl)
    exact ⟨next, lasts.succ result more.live, more⟩

/-! ## After the last value -/

/-- The machine after it has printed the sum. -/
structure Printed (values : List Int) (m : Machine) : Prop where
  stop : m.memory.Has (9 + values.length) .extra 1 Routine.stop.number
  live : m.status.isTerminal = false
  counter : m.counter = 9 + (values.length : Int)
  steps : m.steps = values.length + 1
  output : m.output = toString values.sum

/-- When all values are added, the next step prints the sum. -/
theorem Summed.prints (summed : m.Summed values values.length) (nonempty : 0 < values.length) :
    ∃ next, m.step = (next, none) ∧ next.Printed values := by
  have sum := summed.sum nonempty
  rw [List.take_length] at sum
  obtain ⟨i, fetched, plain⟩ := fetch_of_has summed.program.print (by rw [summed.counter]; rfl)
  have inside : Routine.print.number < m.memory.size :=
    Nat.lt_of_lt_of_le (by decide) m.memory.holds_accumulators
  have executed := (execute_call plain inside).trans (callRoutine_print sum)
  refine ⟨_, step_of_completed summed.live fetched executed, ?_⟩
  constructor
  case stop => exact summed.program.stop
  case live => rfl
  case counter =>
    show m.counter + 1 = _
    rw [summed.counter]
    ring
  case steps => exact congrArg (· + 1) summed.steps
  case output => simp [Machine.output, complete, apply, summed.silent]

/-- After the sum is printed, the next step stops the program. -/
theorem Printed.stops (printed : m.Printed values) (nonempty : 0 < values.length) :
    ∃ done, m.step = (done, none) ∧ done.status = .halted (some (9 + values.length)) ∧
      done.steps = values.length + 2 ∧ done.output = toString values.sum := by
  obtain ⟨i, fetched, plain⟩ := fetch_of_has printed.stop (by rw [printed.counter]; rfl)
  have inside : Routine.stop.number < m.memory.size := by
    have place := printed.stop.1
    have ten : Routine.stop.number = 10 := rfl
    omega
  have executed : m.execute i = (m.supply, .ok { next := m.counter, halts := true }) := execute_call plain inside
  refine ⟨_, step_of_completed printed.live fetched executed, ?_, ?_, printed.output⟩
  · exact congrArg (Status.halted ∘ some) printed.counter
  · exact congrArg (· + 1) printed.steps

/-! ## Whole runs -/

/-- What becomes of runs of a program that sums: it halts with the sum printed if each sum of the first values
fits, and else the first such sum that does not fit is a fault, before anything is printed. -/
structure SumsUp (values : List Int) (m : Machine) : Prop where
  halts : (∀ i ≤ values.length, Word.fits (values.take i).sum) →
    ∃ done, m.RunsTo (values.length + 2) (done, none) ∧ done.status = .halted (some (9 + values.length)) ∧
      done.steps = values.length + 2 ∧ done.output = toString values.sum
  faults : (¬ ∀ i ≤ values.length, Word.fits (values.take i).sum) →
    ∃ i, 1 ≤ i ∧ i ≤ values.length ∧ ¬ Word.fits (values.take i).sum ∧
      (∀ j < i, Word.fits (values.take j).sum) ∧
      ∃ done f, m.RunsTo i (done, some (.fault f)) ∧ done.status = .faulted f ∧ done.steps = i - 1 ∧
        done.output = "" ∧ f.cause.kind = .registerOutOfRange ∧ f.location = 8 + i - 1 ∧ f.steps = i - 1

/-- If all sums fit, the run goes to its end. -/
theorem Summed.halts (start : m.Summed values 0) (nonempty : 0 < values.length)
    (fits : ∀ i ≤ values.length, Word.fits (values.take i).sum) :
    ∃ done, m.RunsTo (values.length + 2) (done, none) ∧ done.status = .halted (some (9 + values.length)) ∧
      done.steps = values.length + 2 ∧ done.output = toString values.sum := by
  obtain ⟨whole, lasts, summed⟩ := start.lasts le_rfl fits
  obtain ⟨last, result, printed⟩ := summed.prints nonempty
  obtain ⟨done, stopped, status, spec⟩ := printed.stops nonempty
  have ends : last.Ends := Or.inr (by rw [stopped, status]; rfl)
  have runs := runsTo_of_ends start.steps start.live (lasts.succ result printed.live) ends
  rw [stopped] at runs
  exact ⟨done, runs, status, spec⟩

/-- The first sum that does not fit ends the run. -/
theorem Summed.faults (start : m.Summed values 0) (low : k < values.length)
    (fits : ∀ j ≤ k, Word.fits (values.take j).sum) (unfit : ¬ Word.fits (values.take (k + 1)).sum) :
    ∃ done f, m.RunsTo (k + 1) (done, some (.fault f)) ∧ done.status = .faulted f ∧ done.steps = k ∧
      done.output = "" ∧ f.cause.kind = .registerOutOfRange ∧ f.location = 8 + (k : Int) ∧ f.steps = k := by
  obtain ⟨last, lasts, summed⟩ := start.lasts (Nat.le_of_lt low) fits
  obtain ⟨f, result, spec⟩ := summed.overflows low unfit
  have ends : last.Ends := Or.inl (by rw [result]; rfl)
  have runs := runsTo_of_ends start.steps start.live lasts ends
  rw [result] at runs
  have silent : ({ last with status := .faulted f } : Machine).output = "" := by simp [Machine.output, summed.silent]
  exact ⟨_, f, runs, rfl, summed.steps, silent, spec⟩

theorem Summed.sumsUp (start : m.Summed values 0) (nonempty : 0 < values.length) : m.SumsUp values where
  halts := start.halts nonempty
  faults unfit := by
    have exists_unfit : ∃ i, i ≤ values.length ∧ ¬ Word.fits (values.take i).sum := by simpa using unfit
    obtain ⟨within, first⟩ := Nat.find_spec exists_unfit
    have before : ∀ j < Nat.find exists_unfit, Word.fits (values.take j).sum := by
      intro j less
      have earlier := Nat.find_min exists_unfit less
      by_contra unfit
      exact earlier ⟨by omega, unfit⟩
    generalize Nat.find exists_unfit = i at within first before
    cases i with
    | zero => exact absurd (show Word.fits 0 by decide) first
    | succ k =>
      obtain ⟨done, f, runs, status, steps, output, kind, location, count⟩ :=
        start.faults within (fun j le => before j (by omega)) first
      exact ⟨k + 1, by omega, within, first, before, done, f, runs, status, by omega, output, kind, by omega, by omega⟩

end Machine

end WordMachine
