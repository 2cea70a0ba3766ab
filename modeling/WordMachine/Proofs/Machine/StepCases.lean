import WordMachine.Proofs.Machine.Reachable

/-!
# What one step can come to

A machine that has ended refuses a step. In any other machine a step completes the instruction at the
counter, ends the run with a fault, or is broken off, and in the last two cases it leaves all but the status
and what is left outside as it was. Whatever is proved about steps by cases is proved from `step_cases`.

The texts of a step, `Machine.sends`, are said here without the record that the machine keeps of them.
-/
namespace WordMachine.Machine

/-- The texts that a step sends to the output: the text of its effect, if it completes. -/
def sends (m : Machine) : List String :=
  if m.status.isTerminal then []
  else
    match m.fetch.map m.execute with
    | .ok (_, .ok e) => e.print.toList
    | _ => []

/-- The machine, its trouble and its texts after a step. -/
inductive StepCase (m : Machine) : Machine → Option Trouble → List String → Prop where
  | refused (ended : m.status.isTerminal = true) : StepCase m m (some (.cannotStep m.status)) []
  | completed {i : Instruction} {supply : Supply} {e : Effect} (live : m.status.isTerminal = false)
      (fetched : m.fetch = .ok i) (executed : m.execute i = (supply, .ok e)) :
      StepCase m ((m.withSupply supply).complete (shownName i) e) none e.print.toList
  | faulted {f : Fault} (supply : Supply) (live : m.status.isTerminal = false)
      (here : f.location = m.counter) (now : f.steps = m.steps) :
      StepCase m { m.withSupply supply with status := .faulted f } (some (.fault f)) []
  | interrupted {trouble : Trouble} (supply : Supply) (live : m.status.isTerminal = false)
      (outside : (∃ word, trouble = .unreadable word) ∨ trouble = .unwritable) :
      StepCase m { m.withSupply supply with status := .running } (some trouble) []

/-- A fault ends the run, unless its reason is too long to be written. -/
theorem stepCase_faultWith {m : Machine} (supply : Supply) (live : m.status.isTerminal = false)
    (cause : FaultCause) (name : Option String) :
    StepCase m ((m.withSupply supply).faultWith cause name).1
      ((m.withSupply supply).faultWith cause name).2 [] := by
  unfold faultWith
  dsimp only
  split
  · exact .faulted supply live rfl rfl
  · exact .interrupted supply live (Or.inr rfl)

theorem trouble_faultWith (m : Machine) (cause : FaultCause) (name : Option String) :
    (m.faultWith cause name).2 ≠ none := by
  unfold faultWith interruptedBy
  dsimp only
  split <;> nofun

theorem cause_of_faultWith {m : Machine} {cause : FaultCause} {name : Option String} {f : Fault}
    (faulted : (m.faultWith cause name).2 = some (.fault f)) : f.cause = cause := by
  unfold faultWith at faulted
  dsimp only at faulted
  split at faulted
  · cases faulted
    rfl
  · cases faulted

/-- What a step comes to, one case for each way out. -/
theorem step_cases (m : Machine) : StepCase m m.step.1 m.step.2 m.sends := by
  cases live : m.status.isTerminal with
  | true =>
    have silent : m.sends = [] := by simp [sends, live]
    rw [step_of_ended live, silent]
    exact .refused live
  | false =>
    cases fetched : m.fetch with
    | error cause =>
      have silent : m.sends = [] := by simp [sends, live, fetched, Except.map]
      rw [step_of_fetch_error live fetched, silent]
      exact stepCase_faultWith m.supply live cause none
    | ok i =>
      cases executed : m.execute i with
      | mk supply result =>
        cases result with
        | ok e =>
          have printed : m.sends = e.print.toList := by simp [sends, live, fetched, Except.map, executed]
          rw [step_of_completed live fetched executed, printed]
          exact .completed live fetched executed
        | error obstacle =>
          have silent : m.sends = [] := by simp [sends, live, fetched, Except.map, executed]
          rw [silent]
          cases obstacle with
          | fault cause =>
            rw [step_of_faulted live fetched executed]
            exact stepCase_faultWith supply live cause (some (shownName i))
          | unreadable word =>
            rw [step_of_unreadable live fetched executed]
            exact .interrupted supply live (Or.inl ⟨word, rfl⟩)

/-- The cases of a step whose result is known. -/
theorem stepCase_of_step {m next : Machine} {trouble : Option Trouble} (result : m.step = (next, trouble)) :
    ∃ sent, m.sends = sent ∧ StepCase m next trouble sent := by
  have outcome := step_cases m
  rw [result] at outcome
  exact ⟨m.sends, rfl, outcome⟩

/-! ## Counting steps -/

/-- A step without trouble is counted. -/
theorem steps_of_completed {m next : Machine} (result : m.step = (next, none)) :
    next.steps = m.steps + 1 := by
  obtain ⟨sent, -, outcome⟩ := stepCase_of_step result
  cases outcome with
  | completed => rfl

/-- A completed step leaves the machine running, or halted at the instruction. -/
theorem status_of_completed {m next : Machine} (result : m.step = (next, none)) :
    next.status = .running ∨ next.status = .halted (some m.counter) := by
  obtain ⟨sent, -, outcome⟩ := stepCase_of_step result
  cases outcome with
  | @completed i supply e live fetched executed =>
    cases halts : e.halts with
    | true => exact Or.inr (by simp [complete, apply, halts])
    | false => exact Or.inl (by simp [complete, apply, halts])

end WordMachine.Machine
