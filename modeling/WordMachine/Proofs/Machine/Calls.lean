import WordMachine.Proofs.Machine.StepCases

/-!
# Calls on one machine

Whoever holds a machine asks it for single steps and for runs, in any order. A run asks before each step
whether to cancel, and is told here by a list of answers; when they are used up it is still under way. A
limit is one way to answer (`run_eq_call`). What the calls of a session lead to, `Driven`, is made of single
steps and of cancelling between two of them, so an invariant of these is one of every session.
-/
namespace WordMachine.Machine

/-- What a call comes to: the machine, the trouble, and the texts sent to the output meanwhile. -/
structure Reply where
  machine : Machine
  trouble : Option Trouble := none
  sent : List String := []

/-- The steps of a run that is told before each one whether to cancel. -/
def runAsking : List Bool → Machine → Reply
  | [], m => { machine := m }
  | cancel :: answers, m =>
    if m.status.isTerminal then { machine := m }
    else if cancel then { machine := { m with status := .cancelled } }
    else
      match m.step with
      | (next, some trouble) => { machine := next, trouble := some trouble, sent := m.sends }
      | (next, none) =>
        let rest := runAsking answers next
        { rest with sent := m.sends ++ rest.sent }

/-- What a machine can be asked for. -/
inductive Call where
  | step
  /-- A run, with the answers it gets to the question whether to cancel. -/
  | run (answers : List Bool)
  deriving DecidableEq, Repr

def call (m : Machine) : Call → Reply
  | .step => { machine := m.step.1, trouble := m.step.2, sent := m.sends }
  | .run answers =>
    if m.isEmpty then { machine := m }
    else if m.status.isTerminal then { machine := m, trouble := some (.alreadyEnded m.status) }
    else runAsking answers m

/-- The machine after a sequence of calls, whatever became of each of them, and the texts sent. -/
def session (m : Machine) : List Call → Machine × List String
  | [] => (m, [])
  | c :: calls =>
    let reply := m.call c
    let (last, sent) := reply.machine.session calls
    (last, reply.sent ++ sent)

/-! ## A limit as answers -/

/-- The answers of a limit: to go on for the steps that are left, then to cancel. -/
def answersUpTo (count : Nat) : List Bool :=
  List.replicate count false ++ [true]

/-- A limit is one way to answer. -/
theorem runAsking_answersUpTo (m : Machine) (count : Nat) :
    let reply := runAsking (answersUpTo count) m
    (reply.machine, reply.trouble) =
      (let (next, trouble) := advance count m
       if trouble.isNone && !next.status.isTerminal then ({ next with status := .cancelled }, none)
       else (next, trouble)) := by
  induction count generalizing m with
  | zero => cases live : m.status.isTerminal <;> simp [answersUpTo, runAsking, advance, live]
  | succ count ih =>
    cases live : m.status.isTerminal with
    | true => simp [answersUpTo, List.replicate_succ, runAsking, advance, live]
    | false =>
      cases result : m.step with
      | mk next trouble =>
        cases trouble with
        | some trouble => simp [answersUpTo, List.replicate_succ, runAsking, advance, live, result]
        | none => simpa [answersUpTo, List.replicate_succ, runAsking, advance, live, result] using ih next

/-- A run with a limit is a run that is cancelled at the limit. -/
theorem run_eq_call (m : Machine) (limit : Nat) :
    m.run limit =
      (let reply := m.call (.run (answersUpTo (limit - m.steps)))
       (reply.machine, reply.trouble)) := by
  unfold run call
  dsimp only
  split
  · rfl
  · split
    · rfl
    · exact (runAsking_answersUpTo m (limit - m.steps)).symm

/-! ## Steps and cancelling -/

/-- The machines that steps and cancelling lead to, with the texts sent on the way. -/
inductive Driven (start : Machine) : List String → Machine → Prop where
  | start : Driven start [] start
  | step {sent : List String} {m : Machine} (before : Driven start sent m) :
      Driven start (sent ++ m.sends) m.step.1
  | cancel {sent : List String} {m : Machine} (before : Driven start sent m)
      (live : m.status.isTerminal = false) : Driven start sent { m with status := .cancelled }

section

variable {start m : Machine} {sent : List String}

theorem Driven.runAsking (before : Driven start sent m) (answers : List Bool) :
    Driven start (sent ++ (Machine.runAsking answers m).sent) (Machine.runAsking answers m).machine := by
  induction answers generalizing m sent with
  | nil => simpa [Machine.runAsking] using before
  | cons cancel answers ih =>
    unfold Machine.runAsking
    split
    · simpa using before
    next live =>
      split
      · simpa using before.cancel (Bool.not_eq_true _ ▸ live)
      · have after := before.step
        cases result : m.step with
        | mk next trouble =>
          rw [result] at after
          cases trouble with
          | some trouble => exact after
          | none =>
            dsimp only
            rw [← List.append_assoc]
            exact ih after

theorem Driven.call (before : Driven start sent m) (c : Call) :
    Driven start (sent ++ (m.call c).sent) (m.call c).machine := by
  cases c with
  | step => exact before.step
  | run answers =>
    unfold Machine.call
    dsimp only
    split
    · simpa using before
    · split
      · simpa using before
      · exact before.runAsking answers

theorem Driven.session (before : Driven start sent m) (calls : List Call) :
    Driven start (sent ++ (m.session calls).2) (m.session calls).1 := by
  induction calls generalizing m sent with
  | nil => simpa [Machine.session] using before
  | cons c calls ih =>
    have after := ih (before.call c)
    rw [List.append_assoc] at after
    exact after

end

/-- A session is nothing but steps and cancelling. -/
theorem driven_session (start : Machine) (calls : List Call) :
    Driven start (start.session calls).2 (start.session calls).1 :=
  Driven.start.session calls

end WordMachine.Machine
