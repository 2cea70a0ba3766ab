import Mathlib
import WordMachine.Machine.Run

/-!
# Steps and reachable machines

What one step can do, said once: it completes the instruction at the counter, faults, or is broken off. A
reachable machine is a loaded one that was driven by single steps and was perhaps cancelled between two of
them. A run is nothing else, so it never leaves the reachable machines (`Reachable.run`).
-/
namespace WordMachine.Machine

abbrev withSupply (m : Machine) (supply : Supply) : Machine :=
  { m with supply }

/-- A step with no instruction at the counter faults without a name. -/
theorem step_of_fetch_error {m : Machine} {cause : FaultCause} (live : m.status.isTerminal = false)
    (unfetched : m.fetch = .error cause) : m.step = m.faultWith cause none := by
  simp [step, live, unfetched]

/-- A step whose instruction has an effect completes it. -/
theorem step_of_completed {m : Machine} {i : Instruction} {supply : Supply} {e : Effect}
    (live : m.status.isTerminal = false) (fetched : m.fetch = .ok i)
    (executed : m.execute i = (supply, .ok e)) :
    m.step = ((m.withSupply supply).complete (shownName i) e, none) := by
  simp [step, live, fetched, executed]

/-- A step whose instruction fails faults, with what the instruction took from outside gone. -/
theorem step_of_faulted {m : Machine} {i : Instruction} {supply : Supply} {cause : FaultCause}
    (live : m.status.isTerminal = false) (fetched : m.fetch = .ok i)
    (executed : m.execute i = (supply, .error (.fault cause))) :
    m.step = (m.withSupply supply).faultWith cause (some (shownName i)) := by
  simp [step, live, fetched, executed]

theorem step_of_unreadable {m : Machine} {i : Instruction} {supply : Supply} {word : String}
    (live : m.status.isTerminal = false) (fetched : m.fetch = .ok i)
    (executed : m.execute i = (supply, .error (.unreadable word))) :
    m.step = (m.withSupply supply).interruptedBy (.unreadable word) := by
  simp [step, live, fetched, executed]

theorem step_of_ended {m : Machine} (ended : m.status.isTerminal = true) :
    m.step = (m, some (.cannotStep m.status)) := by
  simp [step, ended]

/-- The machines that can come up. -/
inductive Reachable : Machine → Prop where
  | load {assembly : Assembly} {size : Int} {supply : Supply} {traced : Bool} {m : Machine}
      (loaded : Machine.load assembly size supply traced = .ok m) : Reachable m
  | step {m : Machine} (before : Reachable m) : Reachable m.step.1
  | cancel {m : Machine} (before : Reachable m) (live : m.status.isTerminal = false) :
      Reachable { m with status := .cancelled }

theorem Reachable.advance {m : Machine} (before : Reachable m) (count : Nat) :
    Reachable (Machine.advance count m).1 := by
  induction count generalizing m with
  | zero => exact before
  | succ count ih =>
    unfold Machine.advance
    split
    · exact before
    · have after := before.step
      cases result : m.step with
      | mk next trouble =>
        rw [result] at after
        cases trouble with
        | some trouble => exact after
        | none => exact ih after

/-- A run with any limit leads to a reachable machine. -/
theorem Reachable.run {m : Machine} (before : Reachable m) (limit : Nat) :
    Reachable (Machine.run limit m).1 := by
  unfold Machine.run
  split
  · exact before
  · split
    · exact before
    · have after := before.advance (limit - m.steps)
      cases result : Machine.advance (limit - m.steps) m with
      | mk next trouble =>
        rw [result] at after
        simp only
        split
        next cut =>
          simp only [Bool.and_eq_true, Bool.not_eq_true'] at cut
          exact after.cancel cut.2
        · exact after

end WordMachine.Machine
