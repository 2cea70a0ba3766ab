import WordMachine.Proofs.Assembly.Image
import WordMachine.Proofs.Machine.Calls
import WordMachine.Proofs.Machine.StepOutcome

/-!
# What a machine says of itself is true

Whatever a loaded machine is asked for, its registers stay in range, its output is what was sent, and its
status agrees with the rest of it: a fault is where the counter is, and a machine that halted stands at the
call that stopped it. The invariant behind this, `Kept`, is one of single steps and of cancelling, and so of
every session.
-/
namespace WordMachine.Machine

/-- The instruction at the counter is a call of the routine that stops the program. -/
def AtStop (m : Machine) : Prop :=
  ∃ i, m.fetch = .ok i ∧ i.mnemonic = .extra ∧ m.effectiveAddress i = .ok 10

/-- What the status says is so. A machine without a program has halted nowhere. -/
def Truthful (assembly : Assembly) (m : Machine) : Prop :=
  match m.status with
  | .halted none => ¬ assembly.HasInstruction
  | .halted (some location) => assembly.HasInstruction ∧ location = m.counter ∧ m.AtStop
  | .faulted f => assembly.HasInstruction ∧ f.location = m.counter ∧ f.steps = m.steps
  | .ready | .running | .cancelled => assembly.HasInstruction

/-- What every step keeps of a machine that was loaded into a memory of a given size and has sent the given
texts. -/
structure Kept (assembly : Assembly) (size : Int) (sent : List String) (m : Machine) : Prop where
  room : (m.memory.size : Int) = size
  range : m.InRange
  truthful : m.Truthful assembly
  output : m.output = String.join sent

/-! ## Loading -/

/-- A machine that was just loaded is in range and truthful, and it has sent nothing. -/
theorem kept_of_load {assembly : Assembly} {size : Int} {supply : Supply} {traced : Bool} {m : Machine}
    (loaded : Machine.load assembly size supply traced = .ok m) : m.Kept assembly size [] := by
  have range := inRange_of_load loaded
  obtain ⟨memory, filled, made⟩ := bind_eq_ok_iff.mp loaded
  obtain ⟨room, inside⟩ := loadMemory_ok filled
  cases made
  refine ⟨room, range, ?_, rfl⟩
  rw [Truthful]
  cases entry : assembly.entry <;> simp [← Assembly.isSome_entry_iff, entry]

/-! ## Steps and cancelling -/

theorem hasInstruction {assembly : Assembly} {m : Machine} (truthful : m.Truthful assembly)
    (live : m.status.isTerminal = false) : assembly.HasInstruction := by
  unfold Truthful at truthful
  cases status : m.status <;> simp_all [Status.isTerminal]

theorem output_apply (m : Machine) (e : Effect) : (m.apply e).output = m.output ++ String.join e.print.toList := by
  cases print : e.print <;> simp [apply, output, print, String.join]

section

variable {assembly : Assembly} {size : Int} {sent : List String} {m : Machine}

/-- A completed instruction keeps the invariant; if it halts, it is the call that stops the program. -/
theorem Kept.complete (before : m.Kept assembly size sent) (live : m.status.isTerminal = false)
    {i : Instruction} {supply : Supply} {e : Effect} (fetched : m.fetch = .ok i)
    (executed : m.execute i = (supply, .ok e)) (name : String) :
    ((m.withSupply supply).complete name e).Kept assembly size (sent ++ e.print.toList) := by
  have does := execute_does executed
  have entered := hasInstruction before.truthful live
  refine ⟨?_, before.range.complete fetched does.sound name, ?_, ?_⟩
  · exact (congrArg Nat.cast (size_apply (m.withSupply supply) e)).trans before.room
  · cases halts : e.halts with
    | false => simpa [Truthful, Machine.complete, apply, halts] using entered
    | true =>
      obtain ⟨called, rfl⟩ := does.stops_of_halts halts
      exact ⟨entered, rfl, i, fetched, called.1, effectiveAddress_of_stop called.2⟩
  · rw [String.join_append, ← before.output]
    exact output_apply (m.withSupply supply) e

/-- One step keeps what is kept, and adds what it sends. -/
theorem Kept.step (before : m.Kept assembly size sent) :
    m.step.1.Kept assembly size (sent ++ m.sends) := by
  have outcome := step_cases m
  generalize m.step.1 = next, m.step.2 = trouble, m.sends = texts at outcome
  cases outcome with
  | refused => simpa using before
  | completed live fetched executed => exact before.complete live fetched executed _
  | faulted supply live here now =>
    rw [List.append_nil]
    exact ⟨before.room, ⟨before.range.registers, before.range.counter⟩,
      ⟨hasInstruction before.truthful live, here, by simp [now]⟩, before.output⟩
  | interrupted supply live =>
    rw [List.append_nil]
    exact ⟨before.room, ⟨before.range.registers, before.range.counter⟩, hasInstruction before.truthful live,
      before.output⟩

/-- Cancelling keeps what is kept. -/
theorem Kept.cancel (before : m.Kept assembly size sent) (live : m.status.isTerminal = false) :
    Kept assembly size sent { m with status := .cancelled } :=
  ⟨before.room, ⟨before.range.registers, before.range.counter⟩, hasInstruction before.truthful live,
    before.output⟩

/-- The invariant holds wherever steps and cancelling lead. -/
theorem Kept.driven {start : Machine} (kept : start.Kept assembly size []) (driven : Driven start sent m) :
    m.Kept assembly size sent := by
  induction driven with
  | start => exact kept
  | step _ ih => exact ih.step
  | cancel _ live ih => exact ih.cancel live

end

/-! ## Every session -/

/-- All that can be relied on between two calls of a session. -/
structure Consistent (assembly : Assembly) (size : Int) (sent : List String) (m : Machine) : Prop where
  index_fits : ∀ n : Fin 8, -2 ^ 23 ≤ m.index.get n ∧ m.index.get n ≤ 2 ^ 23 - 1
  counter_near : 0 ≤ m.counter ∧ m.counter ≤ size + 1
  fault_iff : m.fault.isSome = true ↔ ∃ f, m.status = .faulted f
  fault_here : ∀ f, m.fault = some f → f.location = m.counter ∧ f.steps = m.steps
  halted_iff : m.haltLocation.isSome = true ↔
    assembly.HasInstruction ∧ ∃ location, m.status = .halted location
  halted_here : ∀ location, m.haltLocation = some location → location = m.counter ∧ m.AtStop
  output_sent : m.output = String.join sent
  step_refused : m.status.isTerminal = true →
    m.call .step = { machine := m, trouble := some (.cannotStep m.status) }
  run_refused : m.status.isTerminal = true → assembly.HasInstruction → ∀ answers,
    m.call (.run answers) = { machine := m, trouble := some (.alreadyEnded m.status) }
  run_again : ¬ assembly.HasInstruction → ∀ answers, m.call (.run answers) = { machine := m }

/-- A machine with a program has halted somewhere, if it has; one without has halted. -/
theorem isEmpty_iff {assembly : Assembly} {m : Machine} (truthful : m.Truthful assembly) :
    m.isEmpty = true ↔ ¬ assembly.HasInstruction := by
  unfold Truthful at truthful
  cases status : m.status with
  | halted location => cases location <;> simp_all [isEmpty]
  | ready | running | faulted | cancelled => simp_all [isEmpty]

theorem call_run_of_ended {m : Machine} (ended : m.status.isTerminal = true) (program : m.isEmpty = false)
    (answers : List Bool) :
    m.call (.run answers) = { machine := m, trouble := some (.alreadyEnded m.status) } := by
  simp [call, ended, program]

theorem call_run_of_isEmpty {m : Machine} (empty : m.isEmpty = true) (answers : List Bool) :
    m.call (.run answers) = { machine := m } := by
  simp [call, empty]

theorem call_step_of_ended {m : Machine} (ended : m.status.isTerminal = true) :
    m.call .step = { machine := m, trouble := some (.cannotStep m.status) } := by
  simp [call, step_of_ended ended, sends, ended]

/-- All of it can be relied on between calls. -/
theorem Kept.consistent {assembly : Assembly} {size : Int} {sent : List String} {m : Machine}
    (kept : m.Kept assembly size sent) : m.Consistent assembly size sent := by
  have truthful := kept.truthful
  constructor
  case index_fits =>
    intro n
    have fits := kept.range.registers n
    simp only [Word.fits, Word.minInteger, Word.maxInteger] at fits
    omega
  case counter_near => exact kept.room ▸ kept.range.counter
  case fault_iff => cases status : m.status <;> simp [fault, status]
  case fault_here =>
    intro f found
    cases status : m.status <;> simp_all [fault, Truthful]
  case halted_iff =>
    unfold Truthful at truthful
    cases status : m.status with
    | halted location => cases location <;> simp_all [haltLocation]
    | ready | running | faulted | cancelled => simp [haltLocation, status]
  case halted_here =>
    intro location found
    cases status : m.status <;> simp_all [haltLocation, Truthful]
  case output_sent => exact kept.output
  case step_refused => exact call_step_of_ended
  case run_refused =>
    intro ended program answers
    refine call_run_of_ended ended ?_ answers
    rw [← Bool.not_eq_true, isEmpty_iff truthful, not_not]
    exact program
  case run_again =>
    intro without answers
    exact call_run_of_isEmpty ((isEmpty_iff truthful).mpr without) answers

/-- Whatever a loaded machine is asked for, in any order, it stays consistent. -/
theorem session_consistent {assembly : Assembly} {size : Int} {supply : Supply} {traced : Bool} {m : Machine}
    (loaded : Machine.load assembly size supply traced = .ok m) (calls : List Call) :
    (m.session calls).1.Consistent assembly size (m.session calls).2 :=
  ((kept_of_load loaded).driven (driven_session m calls)).consistent

/-- A program whose one instruction calls the routine whose number is in location 12. -/
def computedStopProgram : Assembly where
  origin := 8
  words := [⟨8, ⟨.instruction, 0o77104014⟩, 1⟩, ⟨12, ⟨.integer, 10⟩, 2⟩]
  literals := []
  labels := []
  listing := []
  file := "stop"

def computedStopMachine : Machine where
  memory := ⟨((Array.replicate 20 Word.zero).set 8 ⟨.instruction, 0o77104014⟩).set 12 ⟨.integer, 10⟩,
    by decide⟩
  counter := 8

/-- The number of the routine is in a word, so it is not the word at the counter that says that the program stops. -/
theorem computedStopMachine_consistent :
    Machine.load computedStopProgram 20 {} false = .ok computedStopMachine ∧
    (computedStopMachine.session [.run [false], .step]).1.status = .halted (some 8) ∧
    (computedStopMachine.session [.run [false], .step]).1.Consistent computedStopProgram 20
      (computedStopMachine.session [.run [false], .step]).2 := by
  have loaded : Machine.load computedStopProgram 20 {} false = .ok computedStopMachine := rfl
  exact ⟨loaded, by decide +kernel, session_consistent loaded _⟩

end WordMachine.Machine
