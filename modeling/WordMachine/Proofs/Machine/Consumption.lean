import WordMachine.Proofs.Machine.Calls
import WordMachine.Proofs.Machine.Effects
import WordMachine.Proofs.Machine.StepOutcome

/-!
# Which numbers a session uses up

Only a step that calls the routine that reads takes a number from the input, and it takes the first one that is
left (`input_step`). So the numbers taken in a session, in order, and those left at its end are the numbers that
were given (`Visits.taken`). A number that fits a word is taken by a step that completes. One that fits no word is
taken as well, and its step does not complete: it faults, unless the number is an integer too long to be written,
and is then gone although the step had no other effect. Since a fault ends the run, that happens to at most one
number that can be written.
-/
namespace WordMachine

open Numeric

def Delivery.number? {σ : Type} : Delivery σ → Option Number
  | .number value _ => some value
  | .exhausted _ | .unreadable .. => none

namespace Machine

instance (m : Machine) (i : Instruction) (r : Routine) : Decidable (m.Calls i r) :=
  inferInstanceAs (Decidable (i.mnemonic = .extra ∧ m.calledRoutine i = .ok r))

def reads (m : Machine) : Bool :=
  !m.status.isTerminal &&
    match m.fetch with
    | .ok i => decide (m.Calls i .read)
    | .error _ => false

def taken? (m : Machine) : Option Number :=
  if m.reads then m.supply.input.next.number? else none

def refusal? (m : Machine) : Option WordError :=
  m.taken?.bind fun n => error? (Word.ofNumber n)

def refuses (m : Machine) : Bool :=
  m.refusal?.isSome

def completesRead (m : Machine) : Bool :=
  m.reads && decide (m.step.2 = none)

/-! ## Single steps -/

section

variable {m : Machine} {i : Instruction}

/-- An instruction takes from the input if it calls the routine that reads, and not otherwise. -/
theorem input_execute (m : Machine) (i : Instruction) :
    (m.execute i).1.input = if m.Calls i .read then m.supply.input.next.rest else m.supply.input := by
  by_cases family : i.mnemonic.family = .library
  · have extra := Mnemonic.eq_extra_of_library family
    have library : m.execute i = m.executeLibrary i := by simp [execute, family]
    rw [library]
    unfold executeLibrary
    cases called : m.calledRoutine i with
    | error cause => simp [Calls, called]
    | ok r =>
      cases r
      case read => simp [Calls, extra, called, callRoutine, readNumber]
      all_goals simp [Calls, called, callRoutine, drawNumber]
  · have uncalled : ¬ m.Calls i .read := fun called => family (congrArg Mnemonic.family called.1)
    rw [if_neg uncalled]
    unfold execute
    cases mine : i.mnemonic.family
    case library => exact absurd mine family
    all_goals rfl

theorem supply_faultWith (m : Machine) (cause : FaultCause) (name : Option String) :
    (m.faultWith cause name).1.supply = m.supply := by
  unfold faultWith
  dsimp only
  split <;> rfl

/-- A step takes from the input if it reads, and not otherwise, whatever becomes of it. -/
theorem input_step (m : Machine) :
    m.step.1.supply.input = if m.reads then m.supply.input.next.rest else m.supply.input := by
  cases live : m.status.isTerminal with
  | true => simp [step_of_ended live, reads, live]
  | false =>
    cases fetched : m.fetch with
    | error cause => simp [step_of_fetch_error live fetched, supply_faultWith, reads, fetched]
    | ok i =>
      have taken := input_execute m i
      have reading : m.reads = decide (m.Calls i .read) := by simp [reads, live, fetched]
      simp only [reading, decide_eq_true_eq]
      cases executed : m.execute i with
      | mk supply result =>
        rw [executed] at taken
        rcases result with (cause | word) | e
        · rw [step_of_faulted live fetched executed, supply_faultWith]
          exact taken
        · rw [step_of_unreadable live fetched executed]
          exact taken
        · rw [step_of_completed live fetched executed]
          exact taken

/-- What a step takes is the first of the numbers that were left. -/
theorem numbers_step {given : List Number} (supplied : m.supply.input = .numbers given) :
    ∃ left, m.step.1.supply.input = .numbers left ∧ m.taken?.toList ++ left = given := by
  rw [input_step, taken?, supplied]
  cases m.reads with
  | false => exact ⟨given, rfl, rfl⟩
  | true =>
    cases given with
    | nil => exact ⟨[], rfl, rfl⟩
    | cons n left => exact ⟨left, rfl, rfl⟩

theorem exists_call_of_reads (reading : m.reads = true) :
    m.status.isTerminal = false ∧ ∃ i, m.fetch = .ok i ∧ m.Calls i .read := by
  unfold reads at reading
  rw [Bool.and_eq_true, Bool.not_eq_true'] at reading
  obtain ⟨live, called⟩ := reading
  split at called
  next i fetched => exact ⟨live, i, fetched, of_decide_eq_true called⟩
  · cases called

theorem execute_read (called : m.Calls i .read) : m.execute i = m.readNumber i.accumulator := by
  simp [execute, called.1, executeLibrary, called.2, callRoutine, Mnemonic.family]

/-- What becomes of a step that reads: it completes, or there is no number, or its number fits no word. -/
inductive Reading (m : Machine) : Prop where
  | completed {n : Number} (taken : m.taken? = some n) (fits : m.refusal? = none) (completed : m.step.2 = none)
  | nothing (taken : m.taken? = none) (uncompleted : m.step.2 ≠ none)
  | refused {n : Number} {e : WordError} (taken : m.taken? = some n) (refused : m.refusal? = some e)
      (outcome : ∃ supply name, m.step = (m.withSupply supply).faultWith (.word e) (some name))

/-- What a step that reads comes to, one case for each way out. -/
theorem reading (reads : m.reads = true) : m.Reading := by
  obtain ⟨live, i, fetched, called⟩ := exists_call_of_reads reads
  have executed := execute_read called
  have taken : m.taken? = m.supply.input.next.number? := by simp [taken?, reads]
  unfold readNumber at executed
  dsimp only at executed
  cases delivery : m.supply.input.next with
  | number n rest =>
    rw [delivery] at executed taken
    cases word : Word.ofNumber n with
    | ok w =>
      have carried : m.execute i =
          ({ m.supply with input := rest }, .ok (m.setAccumulator i.accumulator w)) := by
        simpa [wordOf, word, Except.mapError, Functor.map, Except.map, Delivery.rest] using executed
      refine .completed taken ?_ ?_
      · simp [refusal?, taken, Delivery.number?, word, error?]
      · rw [step_of_completed live fetched carried]
    | error e =>
      have carried : m.execute i = ({ m.supply with input := rest }, .error (.fault (.word e))) := by
        simpa [wordOf, word, Except.mapError, Functor.map, Except.map, Delivery.rest] using executed
      refine .refused taken ?_ ⟨_, _, step_of_faulted live fetched carried⟩
      simp [refusal?, taken, Delivery.number?, word, error?]
  | exhausted rest =>
    rw [delivery] at executed taken
    refine .nothing taken ?_
    rw [step_of_faulted live fetched executed, faultWith_of_writable _ rfl]
    simp
  | unreadable word rest =>
    rw [delivery] at executed taken
    refine .nothing taken ?_
    rw [step_of_unreadable live fetched executed]
    simp [interruptedBy]

end

/-! ## Sessions -/

def stepsOfRun : List Bool → Machine → List Machine
  | [], _ => []
  | cancel :: answers, m =>
    if m.status.isTerminal then []
    else if cancel then []
    else
      match m.step with
      | (_, some _) => [m]
      | (next, none) => m :: stepsOfRun answers next

def stepsOfCall (m : Machine) : Call → List Machine
  | .step => [m]
  | .run answers => if m.isEmpty || m.status.isTerminal then [] else stepsOfRun answers m

/-- The machines that a session comes to before each of its steps, those that are refused included. -/
def stepsOf (m : Machine) : List Call → List Machine
  | [] => []
  | c :: calls => m.stepsOfCall c ++ (m.call c).machine.stepsOf calls

/-- What steps and cancelling lead to, with the machines before each step. -/
inductive Visits (start : Machine) : List Machine → Machine → Prop where
  | start : Visits start [] start
  | step {steps : List Machine} {m : Machine} (before : Visits start steps m) :
      Visits start (steps ++ [m]) m.step.1
  | cancel {steps : List Machine} {m : Machine} (before : Visits start steps m)
      (live : m.status.isTerminal = false) : Visits start steps { m with status := .cancelled }

section

variable {start m : Machine} {steps : List Machine}

theorem Visits.runAsking (before : Visits start steps m) (answers : List Bool) :
    Visits start (steps ++ stepsOfRun answers m) (Machine.runAsking answers m).machine := by
  induction answers generalizing m steps with
  | nil => simpa [stepsOfRun, Machine.runAsking] using before
  | cons cancel answers ih =>
    unfold stepsOfRun Machine.runAsking
    split
    · simpa using before
    next live =>
      split
      · simpa using before.cancel (Bool.not_eq_true _ ▸ live)
      · have after := before.step
        cases result : m.step with
        | mk next trouble =>
          rw [result] at after
          cases trouble with
          | some trouble => exact after
          | none =>
            dsimp only
            rw [← List.singleton_append, ← List.append_assoc]
            exact ih after

theorem Visits.call (before : Visits start steps m) (c : Call) :
    Visits start (steps ++ m.stepsOfCall c) (m.call c).machine := by
  cases c with
  | step => exact before.step
  | run answers =>
    unfold stepsOfCall Machine.call
    dsimp only
    cases m.isEmpty with
    | true => simpa using before
    | false =>
      cases m.status.isTerminal with
      | true => simpa using before
      | false => exact before.runAsking answers

theorem Visits.session (before : Visits start steps m) (calls : List Call) :
    Visits start (steps ++ m.stepsOf calls) (m.session calls).1 := by
  induction calls generalizing m steps with
  | nil => simpa [stepsOf, Machine.session] using before
  | cons c calls ih =>
    have after := ih (before.call c)
    rw [List.append_assoc] at after
    exact after

/-- A session passes through the machines before its steps. -/
theorem visits_session (start : Machine) (calls : List Call) :
    Visits start (start.stepsOf calls) (start.session calls).1 :=
  Visits.start.session calls

/-- The numbers taken, in order, and those left are the numbers that were given. -/
theorem Visits.taken {given : List Number} (visits : Visits start steps m)
    (supplied : start.supply.input = .numbers given) :
    ∃ left, m.supply.input = .numbers left ∧ steps.filterMap taken? ++ left = given := by
  induction visits with
  | start => exact ⟨given, supplied, rfl⟩
  | step _ ih =>
    obtain ⟨left, here, parts⟩ := ih
    obtain ⟨rest, there, first⟩ := numbers_step here
    refine ⟨rest, there, ?_⟩
    rw [← parts, ← first, List.filterMap_append, ← List.append_assoc]
    cases taken : taken? _ <;> simp [taken]
  | cancel _ _ ih => exact ih

end

/-! ## Numbers taken and steps -/

/-- A number is taken by a step that reads and completes, or by one that refuses it, and never by both. -/
theorem taken_counts (m : Machine) :
    m.taken?.toList.length = (if m.completesRead then 1 else 0) + if m.refuses then 1 else 0 := by
  cases reads : m.reads with
  | false => simp [taken?, completesRead, refuses, refusal?, reads]
  | true =>
    cases reading reads with
    | completed taken fits completed => simp [taken, completesRead, refuses, fits, reads, completed]
    | nothing taken uncompleted => simp [taken, completesRead, refuses, refusal?, reads, uncompleted]
    | refused taken refused outcome =>
      obtain ⟨supply, name, result⟩ := outcome
      have uncompleted : m.step.2 ≠ none := by
        rw [result]
        exact trouble_faultWith _ _ _
      simp [taken, completesRead, refuses, refused, reads, uncompleted]

/-- Each number that was taken was read or refused. -/
theorem length_taken (steps : List Machine) :
    (steps.filterMap taken?).length = steps.countP completesRead + steps.countP refuses := by
  induction steps with
  | nil => rfl
  | cons m steps ih =>
    have here := taken_counts m
    rw [List.countP_cons, List.countP_cons]
    cases taken : m.taken? with
    | none =>
      rw [List.filterMap_cons_none taken, ih]
      rw [taken] at here
      simp only [Option.toList_none, List.length_nil] at here
      omega
    | some n =>
      rw [List.filterMap_cons_some taken, List.length_cons, ih]
      rw [taken] at here
      simp only [Option.toList_some, List.length_singleton] at here
      omega

/-! ## Refused numbers -/

section

variable {m start : Machine} {e : WordError}

theorem exists_taken_of_refusal (refused : m.refusal? = some e) :
    ∃ n, m.taken? = some n ∧ Word.ofNumber n = .error e := by
  obtain ⟨n, taken, failed⟩ := Option.bind_eq_some_iff.mp refused
  exact ⟨n, taken, error?_eq_some_iff.mp failed⟩

theorem untouched_faultWith (m : Machine) (supply : Supply) (cause : FaultCause) (name : Option String) :
    Untouched m ((m.withSupply supply).faultWith cause name).1 := by
  unfold faultWith interruptedBy
  dsimp only
  split <;> exact ⟨rfl, rfl, rfl, rfl, rfl, rfl, rfl⟩

/-- A step that takes a number which fits no word: it leaves no other effect, and it faults if it can say so. -/
structure Refused (m : Machine) (e : WordError) : Prop where
  number : ∃ n, m.taken? = some n ∧ Word.ofNumber n = .error e
  untouched : Untouched m m.step.1
  faulted : (FaultCause.word e).isWritable = true →
    ∃ f, f.cause = .word e ∧ m.step.2 = some (.fault f) ∧ m.step.1.status = .faulted f
  unwritten : (FaultCause.word e).isWritable = false → m.step.2 = some .unwritable

/-- A number that fits no word is gone, and nothing else has changed. -/
theorem refused_step (refused : m.refusal? = some e) : m.Refused e := by
  obtain ⟨n, taken, failed⟩ := exists_taken_of_refusal refused
  have reads : m.reads = true := by
    by_contra idle
    simp [taken?, idle] at taken
  cases reading reads with
  | completed _ fits => cases fits.symm.trans refused
  | nothing none => cases none.symm.trans taken
  | refused _ again outcome =>
    cases again.symm.trans refused
    obtain ⟨supply, name, result⟩ := outcome
    refine ⟨⟨n, taken, failed⟩, ?_, fun written => ?_, fun long => ?_⟩
    · rw [result]
      exact untouched_faultWith m supply _ _
    · rw [result, faultWith_of_writable _ written]
      exact ⟨_, rfl, rfl, rfl⟩
    · rw [result]
      simp [faultWith, long, interruptedBy]

theorem refuses_eq_false_of_ended (ended : m.status.isTerminal = true) : m.refuses = false := by
  simp [refuses, refusal?, taken?, reads, ended]

/-- The run has ended with a fault over a number that fits no word. -/
def EndedByNumber (m : Machine) : Prop :=
  ∃ f e, m.status = .faulted f ∧ f.cause = .word e

/-- The fault over a refused number ends the run, so there is no second one. -/
theorem Visits.once {steps : List Machine} (visits : Visits start steps m)
    (written : ∀ x ∈ steps, ∀ e, x.refusal? = some e → (FaultCause.word e).isWritable = true) :
    steps.countP refuses = 0 ∨ steps.countP refuses = 1 ∧ m.EndedByNumber := by
  induction visits with
  | start => exact Or.inl rfl
  | @step steps m _ ih =>
    rw [List.countP_append, List.countP_singleton]
    rcases ih fun x member => written x (List.mem_append_left _ member) with none | ⟨one, ended⟩
    · cases refusal : m.refusal? with
      | none => exact Or.inl (by simp [none, refuses, refusal])
      | some e =>
        obtain ⟨f, cause, -, status⟩ := (refused_step refusal).faulted (written m (by simp) e refusal)
        exact Or.inr ⟨by simp [none, refuses, refusal], f, e, status, cause⟩
    · obtain ⟨f, e, status, cause⟩ := ended
      have terminal : m.status.isTerminal = true := by simp [status, Status.isTerminal]
      refine Or.inr ⟨by simp [one, refuses_eq_false_of_ended terminal], f, e, ?_, cause⟩
      rw [step_of_ended terminal]
      exact status
  | cancel _ live ih =>
    rcases ih written with none | ⟨-, f, e, status, -⟩
    · exact Or.inl none
    · rw [status] at live
      cases live

end

/-! ## The account -/

/-- What becomes of the numbers that a machine is given, in any session. -/
structure NumbersAccounted (start : Machine) (given : List Number) (calls : List Call) : Prop where
  /-- What is taken and what is left is what was given. -/
  left : ∃ left, (start.session calls).1.supply.input = .numbers left ∧
    (start.stepsOf calls).filterMap taken? ++ left = given
  counted : ((start.stepsOf calls).filterMap taken?).length =
    (start.stepsOf calls).countP completesRead + (start.stepsOf calls).countP refuses
  kept : ∀ m ∈ start.stepsOf calls, ∀ f, m.step.2 = some (.fault f) → m.refusal? = none →
    m.step.1.supply.input = m.supply.input
  refused : ∀ m ∈ start.stepsOf calls, ∀ e, m.refusal? = some e → m.Refused e ∧
    ∃ n left, m.supply.input = .numbers (n :: left) ∧ Word.ofNumber n = .error e ∧
      m.step.1.supply.input = .numbers left
  once : (∀ n ∈ given, ∀ e, Word.ofNumber n = .error e → (FaultCause.word e).isWritable = true) →
    (start.stepsOf calls).countP refuses = 0 ∨
    (start.stepsOf calls).countP refuses = 1 ∧ (start.session calls).1.EndedByNumber

section

variable {start m : Machine} {steps : List Machine} {given : List Number}

/-- Every machine that a session comes to still reads from the list that was given. -/
theorem Visits.supplied (visits : Visits start steps m) (supplied : start.supply.input = .numbers given) :
    ∀ x ∈ steps, ∃ left, x.supply.input = .numbers left := by
  induction visits with
  | start => simp
  | step before ih =>
    intro x member
    rcases List.mem_append.mp member with earlier | last
    · exact ih x earlier
    · obtain rfl := List.mem_singleton.mp last
      obtain ⟨left, here, -⟩ := before.taken supplied
      exact ⟨left, here⟩
  | cancel _ _ ih => exact ih

/-- A step that faults without refusing a number takes none. -/
theorem taken_eq_none_of_faulted {f : Fault} (faulted : m.step.2 = some (.fault f)) (unrefused : m.refusal? = none) :
    m.taken? = none := by
  cases reads : m.reads with
  | false => simp [taken?, reads]
  | true =>
    cases reading reads with
    | completed _ _ completed => cases completed.symm.trans faulted
    | nothing none => exact none
    | refused _ refused => cases unrefused.symm.trans refused

/-- In every session the numbers that are used up are those of the completed calls of the routine that reads,
and those that it refused because they fit no word. -/
theorem numbers_accounted (supplied : start.supply.input = .numbers given) (calls : List Call) :
    NumbersAccounted start given calls := by
  have visits := visits_session start calls
  have parts := visits.taken supplied
  refine ⟨parts, length_taken _, fun m member f faulted unrefused => ?_, fun m member e refused => ?_,
    fun written => visits.once fun x member e refused => ?_⟩
  · obtain ⟨left, here⟩ := visits.supplied supplied m member
    obtain ⟨rest, there, first⟩ := numbers_step here
    rw [taken_eq_none_of_faulted faulted unrefused] at first
    rw [there, here, ← first]
    rfl
  · obtain ⟨left, here⟩ := visits.supplied supplied m member
    obtain ⟨rest, there, first⟩ := numbers_step here
    obtain ⟨n, taken, failed⟩ := exists_taken_of_refusal refused
    rw [taken] at first
    exact ⟨refused_step refused, n, rest, by rw [here, ← first]; rfl, failed, there⟩
  · obtain ⟨n, taken, failed⟩ := exists_taken_of_refusal refused
    obtain ⟨left, -, all⟩ := parts
    refine written n ?_ e failed
    rw [← all]
    exact List.mem_append_left _ (List.mem_filterMap.mpr ⟨x, member, taken⟩)

end

/-- A program that reads three numbers into accumulator 1, the second of which fits no word. -/
def threeReadsMachine : Machine where
  memory := ⟨(((Array.replicate 13 Word.zero).set 8 ⟨.instruction, 0o77100004⟩).set 9
    ⟨.instruction, 0o77100004⟩).set 10 ⟨.instruction, 0o77100004⟩, by decide⟩
  counter := 8
  supply := { input := .numbers [.integer 7, .integer (-8388609), .integer 9] }

/-- Two numbers are gone after one read, and the third is left. -/
theorem threeReadsMachine_accounted :
    threeReadsMachine.supply.input = .numbers [.integer 7, .integer (-8388609), .integer 9] ∧
    (threeReadsMachine.session [.run [false, false, false], .step]).1.supply.input = .numbers [.integer 9] ∧
    NumbersAccounted threeReadsMachine [.integer 7, .integer (-8388609), .integer 9]
      [.run [false, false, false], .step] :=
  ⟨rfl, by decide +kernel, numbers_accounted rfl _⟩

/-- A number is gone although the step that took it faulted, and no step was completed. -/
theorem readingMachine_loses_number :
    Reachable readingMachine ∧ readingMachine.supply.input = .numbers [.integer 8388608] ∧
    readingMachine.step.2 = some (.fault ⟨.word (.integerRange 8388608), 8, some "READ", 0⟩) ∧
    readingMachine.step.1.supply.input = .numbers [] ∧ readingMachine.step.1.steps = 0 :=
  ⟨.load (show Machine.load readingProgram 16 { input := .numbers [.integer 8388608] } false =
    .ok readingMachine from rfl), rfl, by decide +kernel, by decide +kernel, by decide +kernel⟩

end Machine

end WordMachine
