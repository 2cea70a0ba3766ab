import WordMachine.Proofs.Address
import WordMachine.Proofs.Machine.PlainStep
import WordMachine.Proofs.Machine.Soundness

/-!
# What is stored is loaded back

An accumulator that is stored at an address and loaded from the same address in the next instruction comes back as
the word that it was, with its tag, whatever way the address names its location and whichever accumulators the two
instructions have. The location may be an accumulator as well, also one of these two. Left aside are the two places
where the store changes what the load does: the load itself, and the word that an indirect address is looked up in.
-/
namespace WordMachine

theorem Memory.read_set_ne (memory : Memory) {target : Nat} {location : Int} (apart : (target : Int) ≠ location)
    (w : Word) : (memory.set target w).read location = memory.read location := by
  by_cases inside : 0 ≤ location ∧ location < memory.size
  · have different : target ≠ location.toNat := by omega
    rw [read_eq inside, read_eq (by rwa [size_set]), get_set_ne memory different]
  · have same : (memory.set target w).check location = memory.check location := by
      unfold check shows
      rw [size_set]
    obtain ⟨e, refused⟩ := exists_check_error inside
    rw [read, read, same, refused]
    rfl

theorem Memory.InstructionAt.set {memory : Memory} {target : Nat} {location : Int} {i : Instruction}
    (stands : memory.InstructionAt location i) (apart : (target : Int) ≠ location) (w : Word) :
    (memory.set target w).InstructionAt location i := by
  obtain ⟨v, read, decoded⟩ := stands
  exact ⟨v, (memory.read_set_ne apart w).trans read, decoded⟩

namespace Machine

variable {m stored : Machine} {i p q : Instruction} {target : Nat} {w : Word}

/-- A store copies its accumulator to the location it names. -/
theorem execute_put (put : i.mnemonic = .put) (address : m.effectiveAddress i = .ok target) :
    m.execute i = (m.supply, .ok (m.goOnWriting target (m.memory.accumulator i.accumulator))) := by
  have family : Mnemonic.put.family = .store := rfl
  simp only [execute, put, family, executeStore, address]
  rfl

/-- A store that completes leaves the machine as it was, but for the word, and goes on. -/
theorem stored_by_put (standing : m.memory.InstructionAt m.counter p) (put : p.mnemonic = .put)
    (address : m.effectiveAddress p = .ok target) (completed : m.step = (stored, none)) :
    stored.memory = m.memory.set target (m.memory.accumulator p.accumulator) ∧ stored.index = m.index ∧
      stored.counter = m.counter + 1 ∧ stored.status = .running := by
  cases live : m.status.isTerminal with
  | true =>
    rw [step_of_ended live] at completed
    cases completed
  | false =>
    rw [step_of_completed live (fetch_of_instructionAt standing) (execute_put put address)] at completed
    cases completed
    exact ⟨rfl, rfl, rfl, rfl⟩

/-- The address names the same location after a word is stored there, unless it is looked up in that very word. -/
theorem effectiveAddress_of_stored (same : Address.ofInstruction q = Address.ofInstruction p)
    (address : m.effectiveAddress p = .ok target) (memory : stored.memory = m.memory.set target w)
    (index : stored.index = m.index)
    (steady : p.indirect = true → (target : Int) ≠ (Address.ofInstruction p).sum m.index) :
    stored.effectiveAddress q = .ok target := by
  -- The only word that the address depends on is the one that the store must not hit.
  have resolved : (Address.ofInstruction p).resolve stored.memory m.index.toList =
      (Address.ofInstruction p).resolve m.memory m.index.toList := by
    refine Address.resolve_congr (Address.registered_ofInstruction p) ?_ fun indirect pointer here inside => ?_
    · rw [memory, Memory.size_set]
    · have apart : target ≠ pointer := by
        rintro rfl
        exact steady indirect here.symm
      rw [memory, Memory.get_set_ne m.memory apart]
  rw [effectiveAddress, index, same, resolved]
  exact address

/-- A load whose operand is there completes, and its accumulator holds the operand. -/
theorem loaded_by_take (live : m.status.isTerminal = false) (standing : m.memory.InstructionAt m.counter q)
    (take : q.mnemonic = .take) (operand : m.operand q = .ok w) :
    ∃ loaded, m.step = (loaded, none) ∧ loaded.memory.accumulator q.accumulator = w := by
  refine ⟨_, step_of_completed live (fetch_of_instructionAt standing) (execute_take_of_operand take operand), ?_⟩
  exact accumulator_complete m (shownName q) q.accumulator w

/-- A load right after a store to the same address completes, with the word that was stored. -/
theorem take_after_put (storing : m.memory.InstructionAt m.counter p) (put : p.mnemonic = .put)
    (loading : m.memory.InstructionAt (m.counter + 1) q) (take : q.mnemonic = .take)
    (same : Address.ofInstruction q = Address.ofInstruction p) (completed : m.step = (stored, none))
    (address : m.effectiveAddress p = .ok target) (unharmed : (target : Int) ≠ m.counter + 1)
    (steady : p.indirect = true → (target : Int) ≠ (Address.ofInstruction p).sum m.index) :
    ∃ loaded, stored.step = (loaded, none) ∧
      loaded.memory.accumulator q.accumulator = m.memory.accumulator p.accumulator := by
  obtain ⟨memory, index, counter, running⟩ := stored_by_put storing put address completed
  have live : stored.status.isTerminal = false := by rw [running]; rfl
  have standing : stored.memory.InstructionAt stored.counter q := by
    rw [memory, counter]
    exact loading.set unharmed _
  have inside : target < m.memory.size := resolve_lt_size (mapError_eq_ok_iff.mp address)
  have operand : stored.operand q = .ok (m.memory.accumulator p.accumulator) := by
    rw [Machine.operand, effectiveAddress_of_stored same address memory index steady, memory]
    exact congrArg Except.ok (Memory.get_set_self inside _)
  exact loaded_by_take live standing take operand

/-- A program that stores accumulator 2, a text, through the pointer in location 10 into accumulator 3, which is also
the accumulator that is loaded then. -/
def returningMachine : Machine where
  memory := ⟨((((Array.replicate 12 Word.zero).set 2 ⟨.text, 0o01020304⟩).set 8 ⟨.instruction, 0o50224011⟩).set 9
    ⟨.instruction, 0o10324011⟩).set 10 ⟨.integer, 3⟩, by decide⟩
  index := #v[0, 0, 1, 0, 0, 0, 0, 0]
  counter := 8

/-- The text goes through memory into another accumulator. -/
theorem returningMachine_take_after_put :
    returningMachine.step = (returningMachine.step.1, none) ∧
    ∃ loaded, returningMachine.step.1.step = (loaded, none) ∧
      loaded.memory.accumulator 3 = returningMachine.memory.accumulator 2 := by
  have storing : returningMachine.memory.InstructionAt 8 ⟨.put, 2, 2, true, 0, 9⟩ := ⟨_, rfl, rfl⟩
  have loading : returningMachine.memory.InstructionAt 9 ⟨.take, 3, 2, true, 0, 9⟩ := ⟨_, rfl, rfl⟩
  have completed : returningMachine.step = (returningMachine.step.1, none) := rfl
  have address : returningMachine.effectiveAddress ⟨.put, 2, 2, true, 0, 9⟩ = .ok 3 := by decide +kernel
  exact ⟨completed, take_after_put storing rfl loading rfl rfl completed address (by decide) (by decide +kernel)⟩

end Machine

end WordMachine
