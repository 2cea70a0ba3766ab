import WordMachine.Proofs.Address
import WordMachine.Proofs.Machine.Soundness
import WordMachine.Proofs.Machine.StepCases
import WordMachine.Proofs.Machine.StepOutcome

/-!
# Faults of an invalid address

A step faults for an invalid address exactly when there is no instruction at the counter, or the address of an
instruction that uses it names no location. What the accumulator and the operand hold makes no difference, and
nothing else that an instruction does fails for such a reason. An instruction that the machine does not carry out
faults as such, and its address is not looked at.
-/
namespace WordMachine.Machine

section

variable (m : Machine)

/-- There is no instruction at the counter: it is outside memory, or at a word of data. -/
def NoInstruction : Prop :=
  ¬ (0 ≤ m.counter ∧ m.counter < m.memory.size) ∨ (m.memory.get m.counter.toNat).isInstruction = false

/-- The instruction at the counter uses its address, which names no location. -/
def Misaddressed : Prop :=
  ∃ i e, m.fetch = .ok i ∧ i.mnemonic.usesAddress = true ∧
    (Address.ofInstruction i).resolve m.memory m.index.toList = .error e

end

section

variable {m next : Machine} {i : Instruction} {cause : FaultCause} {f : Fault}

/-- A fetch fails exactly where there is no instruction, and the address is at fault. -/
theorem exists_fetch_error_iff :
    (∃ cause, m.fetch = .error cause ∧ cause.kind = .invalidAddress) ↔ m.NoInstruction := by
  unfold NoInstruction
  by_cases inside : 0 ≤ m.counter ∧ m.counter < m.memory.size
  · have read := Memory.read_eq inside
    simp only [inside, not_true, false_or, and_self]
    unfold fetch
    rw [read]
    cases w : m.memory.get m.counter.toNat with
    | mk tag bits => cases tag <;> simp [Word.isInstruction, FaultCause.kind]
  · obtain ⟨e, refused⟩ := Memory.exists_check_error inside
    have unread : m.memory.read m.counter = .error e := map_eq_error_iff.mpr refused
    simp only [inside, not_false_eq_true, true_or, iff_true]
    exact ⟨.address e, by rw [fetch, unread], rfl⟩

/-- A word that is no instruction is as good as no address. -/
theorem faultsTo_of_noInstruction (range : m.InRange) (live : m.status.isTerminal = false)
    (without : m.NoInstruction) : ∃ next f, m.FaultsTo next f ∧ f.cause.kind = .invalidAddress := by
  obtain ⟨cause, unfetched, kind⟩ := exists_fetch_error_iff.mpr without
  obtain ⟨next, f, faults, rfl⟩ := faultsTo_with_cause m.supply (range.isWritable_of_fetch_error unfetched)
    (step_of_fetch_error live unfetched)
  exact ⟨next, f, faults, kind⟩

/-- The fault says what is wrong with the address. -/
theorem faultsTo_of_unresolved {e : MemoryError} (live : m.status.isTerminal = false) (fetched : m.fetch = .ok i)
    (uses : i.mnemonic.usesAddress = true)
    (unresolved : (Address.ofInstruction i).resolve m.memory m.index.toList = .error e)
    (written : (FaultCause.address e).isWritable = true) : ∃ next f, m.FaultsTo next f ∧ f.cause = .address e :=
  faultsTo_with_cause m.supply written (step_of_faulted live fetched (execute_of_unresolved uses unresolved))

/-- A function code without an instruction faults before it looks at its address. -/
theorem faultsTo_of_unimplemented (live : m.status.isTerminal = false) (fetched : m.fetch = .ok i)
    (unimplemented : i.mnemonic.isImplemented = false) :
    ∃ next f, m.FaultsTo next f ∧ f.cause = .notImplemented i.mnemonic :=
  faultsTo_with_cause m.supply rfl (step_of_faulted live fetched (execute_of_unimplemented unimplemented))

/-- An instruction fails for an invalid address only if it uses its address. -/
theorem Fails.misaddressed_of_kind (fails : m.Fails i cause) (kind : cause.kind = .invalidAddress) :
    i.mnemonic.usesAddress = true ∧ ∃ e, (Address.ofInstruction i).resolve m.memory m.index.toList = .error e := by
  cases fails with
  | @misaddressed e uses unresolved => exact ⟨uses, e, unresolved⟩
  | @word e => cases e <;> cases kind
  | unimplemented | noRoutine | notInteger | doesNotFit | divisionByZero | captionNeedsText | noValue | beyondRange
  | inputExhausted => cases kind

/-- A step that faults fails to fetch its instruction, or fails for a reason that the instruction has. -/
theorem fails_of_step (result : m.step = (next, some (.fault f))) :
    m.fetch = .error f.cause ∨ ∃ i, m.fetch = .ok i ∧ m.Fails i f.cause := by
  cases live : m.status.isTerminal with
  | true =>
    rw [step_of_ended live] at result
    cases result
  | false =>
    cases fetched : m.fetch with
    | error cause =>
      rw [step_of_fetch_error live fetched] at result
      exact Or.inl (congrArg _ (cause_of_faultWith (congrArg Prod.snd result)).symm)
    | ok i =>
      cases executed : m.execute i with
      | mk supply outcome =>
        cases outcome with
        | ok e =>
          rw [step_of_completed live fetched executed] at result
          cases result
        | error obstacle =>
          cases obstacle with
          | unreadable word =>
            rw [step_of_unreadable live fetched executed] at result
            cases result
          | fault cause =>
            rw [step_of_faulted live fetched executed] at result
            exact Or.inr ⟨i, rfl, cause_of_faultWith (congrArg Prod.snd result) ▸ execute_fails executed⟩

/-- A step faults for an invalid address exactly when it has none, and for a mnemonic that is not carried out
whatever its address. Only of a machine that cannot come up could the address be too long to be written. -/
theorem invalid_address_exact (live : m.status.isTerminal = false) :
    (Reachable m → m.NoInstruction ∨ m.Misaddressed →
      ∃ next f, m.FaultsTo next f ∧ f.cause.kind = .invalidAddress) ∧
    (∀ next f, m.step = (next, some (.fault f)) → f.cause.kind = .invalidAddress →
      m.NoInstruction ∨ m.Misaddressed) ∧
    (∀ i, m.fetch = .ok i → i.mnemonic.isImplemented = false →
      ∃ next f, m.FaultsTo next f ∧ f.cause.kind = .unknownMnemonic) := by
  refine ⟨?_, fun next f result kind => ?_, fun i fetched unimplemented => ?_⟩
  · rintro reachable (without | ⟨i, e, fetched, uses, unresolved⟩)
    · exact faultsTo_of_noInstruction reachable.inRange live without
    · have written : (FaultCause.address e).isWritable = true := by
        cases e with
        | unwritable => exact absurd unresolved (resolve_ne_unwritable reachable.inRange.registers i)
        | outside | noIndexRegister | notAnAddress => rfl
      obtain ⟨next, f, faults, cause⟩ := faultsTo_of_unresolved live fetched uses unresolved written
      exact ⟨next, f, faults, by rw [cause]; rfl⟩
  · rcases fails_of_step result with unfetched | ⟨i, fetched, fails⟩
    · exact Or.inl (exists_fetch_error_iff.mp ⟨f.cause, unfetched, kind⟩)
    · obtain ⟨uses, e, unresolved⟩ := fails.misaddressed_of_kind kind
      exact Or.inr ⟨i, e, fetched, uses, unresolved⟩
  · obtain ⟨next, f, faults, cause⟩ := faultsTo_of_unimplemented live fetched unimplemented
    exact ⟨next, f, faults, by rw [cause]; rfl⟩

end

/-- A program that jumps to location 63 if accumulator 1, which holds a text, is zero. -/
def strayingProgram : Assembly where
  origin := 8
  words := [⟨1, ⟨.text, 0⟩, 1⟩, ⟨8, ⟨.instruction, 0o61100077⟩, 2⟩]
  literals := []
  labels := []
  listing := []
  file := "stray"

def strayingMachine : Machine where
  memory := ⟨((Array.replicate 16 Word.zero).set 1 ⟨.text, 0⟩).set 8 ⟨.instruction, 0o61100077⟩, by decide⟩
  counter := 8

/-- The jump would go outside memory. -/
theorem strayingMachine_invalid_address :
    strayingMachine.status.isTerminal = false ∧ Reachable strayingMachine ∧ strayingMachine.Misaddressed ∧
    ∃ next f, strayingMachine.FaultsTo next f ∧ f.cause.kind = .invalidAddress := by
  have live : strayingMachine.status.isTerminal = false := rfl
  have reachable : Reachable strayingMachine :=
    .load (show Machine.load strayingProgram 16 {} false = .ok strayingMachine from rfl)
  have misaddressed : strayingMachine.Misaddressed :=
    ⟨⟨.jez, 1, 0, false, 0, 63⟩, .outside 63 16, rfl, by decide, by decide +kernel⟩
  exact ⟨live, reachable, misaddressed, (invalid_address_exact live).1 reachable (Or.inr misaddressed)⟩

end WordMachine.Machine
