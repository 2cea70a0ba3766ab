import WordMachine.Proofs.Assembly.Image
import WordMachine.Proofs.Machine.StepCases

/-!
# A limit cuts a run and does nothing else

From a live machine either all steps up to a limit are completed and the last one leaves a live machine
(`Lasts`), or the run comes to its end at some step before (`Ends`). A run with a limit is cancelled in the
first case and returns what that step returned in the second, so two runs with different limits can only
differ in where they are cut. Single steps before a run make no difference either.
-/
namespace WordMachine.Machine

/-- `count` steps are completed, and the machine they lead to has not ended. -/
structure Lasts (m : Machine) (count : Nat) (next : Machine) : Prop where
  stepped : m.stepTimes count = (next, none)
  live : next.status.isTerminal = false

/-- The next step ends the run, or breaks it off. -/
def Ends (m : Machine) : Prop :=
  m.step.2.isSome = true ∨ m.step.1.status.isTerminal = true

theorem Ends.terminal {m next : Machine} (ends : m.Ends) (result : m.step = (next, none)) :
    next.status.isTerminal = true := by
  simpa [Ends, result] using ends

/-! ## Single steps -/

theorem live_of_completed {m next : Machine} (result : m.step = (next, none)) :
    m.status.isTerminal = false := by
  cases live : m.status.isTerminal with
  | false => rfl
  | true =>
    rw [step_of_ended live] at result
    cases result

theorem stepTimes_of_completed {m next : Machine} (result : m.step = (next, none)) (count : Nat) :
    m.stepTimes (count + 1) = next.stepTimes count := by
  simp [stepTimes, result]

theorem stepTimes_of_trouble {m next : Machine} {trouble : Trouble}
    (result : m.step = (next, some trouble)) (count : Nat) :
    m.stepTimes (count + 1) = (next, some trouble) := by
  simp [stepTimes, result]

/-- A first step that is completed when several are. -/
theorem exists_step_of_stepTimes {m next : Machine} {count : Nat}
    (stepped : m.stepTimes (count + 1) = (next, none)) :
    ∃ first, m.step = (first, none) ∧ first.stepTimes count = (next, none) := by
  cases result : m.step with
  | mk first trouble =>
    cases trouble with
    | some trouble =>
      rw [stepTimes_of_trouble result] at stepped
      cases stepped
    | none =>
      rw [stepTimes_of_completed result] at stepped
      exact ⟨first, rfl, stepped⟩

/-- Steps can be taken in two goes. -/
theorem stepTimes_add {m middle : Machine} {count : Nat} (stepped : m.stepTimes count = (middle, none))
    (more : Nat) : m.stepTimes (count + more) = middle.stepTimes more := by
  induction count generalizing m with
  | zero =>
    cases stepped
    rw [Nat.zero_add]
  | succ count ih =>
    obtain ⟨first, result, rest⟩ := exists_step_of_stepTimes stepped
    rw [Nat.succ_add, stepTimes_of_completed result]
    exact ih rest

/-- A machine that has ended refuses all further steps. -/
theorem fst_stepTimes_of_ended {m : Machine} (ended : m.status.isTerminal = true) (count : Nat) :
    (m.stepTimes count).1 = m := by
  cases count with
  | zero => rfl
  | succ count => rw [stepTimes_of_trouble (step_of_ended ended)]

/-- Every step that is completed is counted. -/
theorem steps_of_stepTimes {m next : Machine} {count : Nat} (stepped : m.stepTimes count = (next, none)) :
    next.steps = m.steps + count := by
  induction count generalizing m with
  | zero =>
    cases stepped
    rfl
  | succ count ih =>
    obtain ⟨first, result, rest⟩ := exists_step_of_stepTimes stepped
    rw [ih rest, steps_of_completed result]
    omega

/-! ## Runs of a given length -/

theorem advance_of_ended {m : Machine} (ended : m.status.isTerminal = true) (count : Nat) :
    advance count m = (m, none) := by
  cases count with
  | zero => rfl
  | succ count => simp [advance, ended]

/-- Steps that are completed one by one are those of a run. -/
theorem advance_of_stepTimes {m middle : Machine} {count : Nat}
    (stepped : m.stepTimes count = (middle, none)) (more : Nat) :
    advance (count + more) m = advance more middle := by
  induction count generalizing m with
  | zero =>
    cases stepped
    rw [Nat.zero_add]
  | succ count ih =>
    obtain ⟨first, result, rest⟩ := exists_step_of_stepTimes stepped
    have live := live_of_completed result
    rw [Nat.succ_add, ← ih rest]
    simp [advance, live, result]

theorem Lasts.advance {m last : Machine} {count : Nat} (lasts : m.Lasts count last) :
    Machine.advance count m = (last, none) :=
  advance_of_stepTimes lasts.stepped 0

/-- After the step that ends it a run of any length has the result of that step. -/
theorem advance_of_ends {m last : Machine} {count length : Nat} (lasts : m.Lasts count last)
    (ends : last.Ends) (longer : count < length) : advance length m = last.step := by
  obtain ⟨rest, rfl⟩ := Nat.exists_eq_add_of_lt longer
  rw [Nat.add_assoc, advance_of_stepTimes lasts.stepped]
  cases result : last.step with
  | mk next trouble =>
    cases trouble with
    | some trouble => simp [advance, lasts.live, result]
    | none =>
      have ended := ends.terminal result
      simp [advance, lasts.live, result, advance_of_ended ended]

/-- One more step that does not end the run. -/
theorem Lasts.succ {m last next : Machine} {count : Nat} (lasts : m.Lasts count last)
    (result : last.step = (next, none)) (live : next.status.isTerminal = false) : m.Lasts (count + 1) next := by
  refine ⟨?_, live⟩
  rw [stepTimes_add lasts.stepped, stepTimes_of_completed result]
  rfl

/-- A run lasts for a number of steps, or it ends at one of them. -/
theorem lasts_or_ends {m : Machine} (live : m.status.isTerminal = false) (count : Nat) :
    (∃ next, m.Lasts count next) ∨ ∃ k < count, ∃ last, m.Lasts k last ∧ last.Ends := by
  induction count with
  | zero => exact Or.inl ⟨m, rfl, live⟩
  | succ count ih =>
    rcases ih with ⟨last, lasts⟩ | ⟨k, less, last, lasts, ends⟩
    · cases result : last.step with
      | mk next trouble =>
        have here : last.Ends → ∃ k < count + 1, ∃ last, m.Lasts k last ∧ last.Ends :=
          fun ends => ⟨count, Nat.lt_succ_self count, last, lasts, ends⟩
        cases trouble with
        | some trouble => exact Or.inr (here (Or.inl (by simp [result])))
        | none =>
          cases ended : next.status.isTerminal with
          | true => exact Or.inr (here (Or.inr (by simp [result, ended])))
          | false => exact Or.inl ⟨next, lasts.succ result ended⟩
    · exact Or.inr ⟨k, Nat.lt_succ_of_lt less, last, lasts, ends⟩

/-- A run that lasts for some steps lasts for fewer. -/
theorem Lasts.shorten {m last : Machine} {count : Nat} (lasts : m.Lasts count last)
    (live : m.status.isTerminal = false) {fewer : Nat} (le : fewer ≤ count) :
    ∃ next, m.Lasts fewer next := by
  rcases lasts_or_ends live fewer with done | ⟨k, less, early, before, ends⟩
  · exact done
  · exfalso
    have whole := lasts.advance
    rw [advance_of_ends before ends (by omega)] at whole
    simp [Ends, whole, lasts.live] at ends

/-! ## Runs with a limit -/

theorem isEmpty_eq_false {m : Machine} (live : m.status.isTerminal = false) : m.isEmpty = false := by
  cases status : m.status <;> simp_all [isEmpty, Status.isTerminal]

/-- What a run of a live machine returns, in terms of its length. -/
theorem run_of_live {m : Machine} (live : m.status.isTerminal = false) (limit : Nat) :
    m.run limit =
      (let (next, trouble) := advance (limit - m.steps) m
       if trouble.isNone && !next.status.isTerminal then ({ next with status := .cancelled }, none)
       else (next, trouble)) := by
  simp [run, isEmpty_eq_false live, live]

/-- A run that lasts until its limit is cancelled there. -/
theorem run_of_lasts {m next : Machine} {limit : Nat} (live : m.status.isTerminal = false)
    (lasts : m.Lasts (limit - m.steps) next) :
    m.run limit = ({ next with status := .cancelled }, none) := by
  rw [run_of_live live, lasts.advance]
  simp [lasts.live]

/-- A run that ends before its limit returns what its last step returned. -/
theorem run_of_ends {m last : Machine} {count limit : Nat} (live : m.status.isTerminal = false)
    (lasts : m.Lasts count last) (ends : last.Ends) (below : count < limit - m.steps) :
    m.run limit = last.step := by
  rw [run_of_live live, advance_of_ends lasts ends below]
  cases result : last.step with
  | mk next trouble =>
    cases trouble with
    | some trouble => rfl
    | none =>
      have ended := ends.terminal result
      simp [ended]

/-- A run goes on from where single steps have led. -/
theorem run_of_stepTimes {m next : Machine} {count limit : Nat} (lasts : m.Lasts count next)
    (live : m.status.isTerminal = false) (within : m.steps + count ≤ limit) :
    next.run limit = m.run limit := by
  have counted := steps_of_stepTimes lasts.stepped
  have length : limit - m.steps = count + (limit - next.steps) := by omega
  rw [run_of_live lasts.live, run_of_live live, length, advance_of_stepTimes lasts.stepped]

/-! ## Limits compared -/

/-- The run with limit `n` is cancelled at the machine that `n` single steps lead to. -/
def CancelledAfter (m : Machine) (n : Nat) : Prop :=
  ∃ next, m.stepTimes n = (next, none) ∧ next.steps = n ∧
    m.run n = ({ next with status := .cancelled }, none)

/-- What a run returns that has room for some steps, be it without a limit or with one. -/
structure RunsTo (m : Machine) (count : Nat) (result : Machine × Option Trouble) : Prop where
  limited : ∀ limit, count ≤ limit → m.run limit = result
  unlimited : ∀ patience, count ≤ patience → m.runPatiently? patience none = some result

/-- Single steps, followed by a run with a limit; whatever goes wrong with a step is where it ends. -/
def stepThenRun (m : Machine) (count limit : Nat) : Machine × Option Trouble :=
  match m.stepTimes count with
  | (next, none) => next.run limit
  | (next, some trouble) => (next, some trouble)

/-- How the runs of a machine with different limits are related. A run that halts completes the instruction
that halts it; a run that faults does not complete the instruction that faults. -/
structure LimitOnlyCuts (m : Machine) : Prop where
  halted : ∀ limit location, (m.run limit).1.status = .halted location →
    (∀ n, (m.run limit).1.steps ≤ n → m.run n = m.run limit) ∧
    ∀ n < (m.run limit).1.steps, m.CancelledAfter n
  faulted : ∀ limit f, (m.run limit).1.status = .faulted f →
    (∀ n, (m.run limit).1.steps < n → m.run n = m.run limit) ∧
    ∀ n ≤ (m.run limit).1.steps, m.CancelledAfter n
  cancelled : ∀ n, (m.run n).1.status = .cancelled → m.CancelledAfter n
  resumed : ∀ j n, j ≤ n → (∀ location, (m.stepTimes j).1.status ≠ .halted location) →
    (∀ f, (m.stepTimes j).1.status ≠ .faulted f) → m.stepThenRun j n = m.run n

section

variable {m last next : Machine} {count : Nat}

/-- A run whose limit is reached is cancelled where single steps would lead. -/
theorem cancelledAfter_of_lasts (fresh : m.steps = 0) (live : m.status.isTerminal = false)
    (lasts : m.Lasts count next) : m.CancelledAfter count := by
  have counted := steps_of_stepTimes lasts.stepped
  refine ⟨next, lasts.stepped, by omega, run_of_lasts live ?_⟩
  rw [fresh]
  exact lasts

/-- The step that halts a run is counted, the one that faults is not, and no step cancels. -/
theorem steps_of_ends (lasts : m.Lasts count last) :
    (∀ location, last.step.1.status = .halted location → last.step.1.steps = m.steps + count + 1) ∧
    (∀ f, last.step.1.status = .faulted f → last.step.1.steps = m.steps + count) ∧
    last.step.1.status ≠ .cancelled := by
  have counted := steps_of_stepTimes lasts.stepped
  cases result : last.step with
  | mk next trouble =>
    obtain ⟨sent, -, outcome⟩ := stepCase_of_step result
    dsimp only
    cases outcome with
    | refused ended => simp [lasts.live] at ended
    | completed =>
      rw [steps_of_completed result, counted]
      rcases status_of_completed result with running | halted
      · simp [running]
      · simp [halted]
    | faulted => simp [counted]
    | interrupted => simp

/-- A fresh machine that comes to its end has one result, whatever limit leaves room for it. -/
theorem runsTo_of_ends (fresh : m.steps = 0) (live : m.status.isTerminal = false) (lasts : m.Lasts count last)
    (ends : last.Ends) : m.RunsTo (count + 1) last.step := by
  have limited : ∀ limit, count + 1 ≤ limit → m.run limit = last.step := fun limit room =>
    run_of_ends live lasts ends (by omega)
  refine ⟨limited, fun patience room => ?_⟩
  have result := limited (m.steps + patience) (by omega)
  have whole := (steps_of_ends lasts).2.2
  simp [runPatiently?, runPatiently?.finished?, result, whole]

/-- Runs of a machine that has not started differ only in where they are cut. -/
theorem limitOnlyCuts_of_fresh (fresh : m.steps = 0) (live : m.status.isTerminal = false) :
    m.LimitOnlyCuts := by
  -- Where the run with one limit was not cut, it tells where every other one ends.
  have other : ∀ limit, (m.run limit).1.status ≠ .cancelled → ∃ k last, m.Lasts k last ∧
      m.run limit = last.step ∧ (∀ n, k < n → m.run n = m.run limit) ∧ ∀ n ≤ k, m.CancelledAfter n := by
    intro limit whole
    rcases lasts_or_ends live limit with ⟨next, lasts⟩ | ⟨k, less, last, lasts, ends⟩
    · rw [run_of_lasts live (by rw [fresh]; exact lasts)] at whole
      exact absurd rfl whole
    · have result : ∀ n, k < n → m.run n = last.step := fun n more =>
        run_of_ends live lasts ends (by omega)
      refine ⟨k, last, lasts, result limit less, fun n more => ?_, fun n fewer => ?_⟩
      · rw [result n more, result limit less]
      · obtain ⟨next, before⟩ := lasts.shorten live fewer
        exact cancelledAfter_of_lasts fresh live before
  constructor
  case halted =>
    intro limit location status
    obtain ⟨k, last, lasts, result, longer, shorter⟩ := other limit (by simp [status])
    have counted := (steps_of_ends lasts).1 location (result ▸ status)
    rw [← result, fresh] at counted
    exact ⟨fun n more => longer n (by omega), fun n fewer => shorter n (by omega)⟩
  case faulted =>
    intro limit f status
    obtain ⟨k, last, lasts, result, longer, shorter⟩ := other limit (by simp [status])
    have counted := (steps_of_ends lasts).2.1 f (result ▸ status)
    rw [← result, fresh] at counted
    exact ⟨fun n more => longer n (by omega), fun n fewer => shorter n (by omega)⟩
  case cancelled =>
    intro n status
    rcases lasts_or_ends live n with ⟨next, lasts⟩ | ⟨k, less, last, lasts, ends⟩
    · exact cancelledAfter_of_lasts fresh live lasts
    · rw [run_of_ends live lasts ends (by omega)] at status
      exact absurd status (steps_of_ends lasts).2.2
  case resumed =>
    intro j n le unhalted unfaulted
    rcases lasts_or_ends live j with ⟨next, lasts⟩ | ⟨k, less, last, lasts, ends⟩
    · rw [stepThenRun, lasts.stepped]
      exact run_of_stepTimes lasts live (by omega)
    · obtain ⟨rest, rfl⟩ := Nat.exists_eq_add_of_lt less
      rw [Nat.add_assoc, stepTimes_add lasts.stepped] at unhalted
      rw [run_of_ends live lasts ends (by omega), stepThenRun, Nat.add_assoc, stepTimes_add lasts.stepped]
      cases result : last.step with
      | mk next trouble =>
        cases trouble with
        | some trouble => rw [stepTimes_of_trouble result]
        | none =>
          have ended := ends.terminal result
          rw [stepTimes_of_completed result, fst_stepTimes_of_ended ended] at unhalted
          rcases status_of_completed result with running | halted
          · simp [running, Status.isTerminal] at ended
          · exact absurd halted (unhalted _)

end

/-- The limit of a run that starts with a loaded program only cuts it. -/
theorem limit_only_cuts {assembly : Assembly} {size : Int} {supply : Supply} {traced : Bool} {m : Machine}
    (loaded : Machine.load assembly size supply traced = .ok m) (program : assembly.HasInstruction) :
    m.LimitOnlyCuts := by
  obtain ⟨memory, -, made⟩ := bind_eq_ok_iff.mp loaded
  cases made
  exact limitOnlyCuts_of_fresh rfl (by simp [Assembly.isSome_entry_iff.mpr program, Status.isTerminal])

def echoProgram : Assembly where
  origin := 8
  words := [⟨8, ⟨.instruction, 0o77100004⟩, 1⟩, ⟨9, ⟨.instruction, 0o77100005⟩, 2⟩,
    ⟨10, ⟨.instruction, 0o77100012⟩, 3⟩]
  literals := []
  labels := []
  listing := []
  file := "echo"

/-- The program in a dozen words of memory, with one number to read. -/
def echoMachine : Machine where
  memory := ⟨(((Array.replicate 12 Word.zero).set 8 ⟨.instruction, 0o77100004⟩).set 9
    ⟨.instruction, 0o77100005⟩).set 10 ⟨.instruction, 0o77100012⟩, by decide⟩
  counter := 8
  supply := { input := .numbers [.integer 7] }

/-- The program takes three steps, so a limit of three does not cut it. -/
theorem echoMachine_limit_only_cuts :
    Machine.load echoProgram 12 { input := .numbers [.integer 7] } false = .ok echoMachine ∧
    echoProgram.HasInstruction ∧ (echoMachine.run 3).1.status = .halted (some 10) ∧
    echoMachine.LimitOnlyCuts := by
  have loaded : Machine.load echoProgram 12 { input := .numbers [.integer 7] } false = .ok echoMachine := rfl
  have program : echoProgram.HasInstruction := ⟨_, List.mem_cons_self, rfl⟩
  exact ⟨loaded, program, by decide +kernel, limit_only_cuts loaded program⟩

end WordMachine.Machine
