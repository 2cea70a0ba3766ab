import WordMachine.Proofs.Machine.Effects
import WordMachine.Proofs.StoredReal.Range

/-!
# What a random draw leaves in the accumulator

The routine that draws takes one random number and stores it as every real is stored, to the nearest. A number from
zero up to one so becomes a real from zero to one, and one itself if it is at most half a unit below
(`draw_up_to_one`).
-/
namespace WordMachine.Machine

open Numeric

section

variable {m : Machine} {i : Instruction}

theorem execute_rnd (called : m.Calls i .rnd) : m.execute i = m.drawNumber i.accumulator := by
  simp [execute, called.1, executeLibrary, called.2, callRoutine, Mnemonic.family]

/-- A draw completes if its number can be stored, and takes no more than the number. -/
theorem step_of_draw {bits : BitVec 24} (live : m.status.isTerminal = false) (fetched : m.fetch = .ok i)
    (called : m.Calls i .rnd) (stored : StoredReal.encode m.supply.draws.next.1 = .ok bits) :
    ∃ next, m.step = (next, none) ∧ next.memory.accumulator i.accumulator = ⟨.real, bits⟩ ∧
      next.supply = { m.supply with draws := m.supply.draws.next.2 } := by
  have executed : m.execute i = ({ m.supply with draws := m.supply.draws.next.2 },
      .ok (m.setAccumulator i.accumulator ⟨.real, bits⟩)) := by
    simp only [execute_rnd called, drawNumber, wordOf, Word.ofNumber, Word.ofReal, stored]
    rfl
  exact ⟨_, step_of_completed live fetched executed, accumulator_complete m (shownName i) i.accumulator _, rfl⟩

/-- A random number from zero up to one is left as a real from zero to one, and as less than one exactly if it is more
than half a unit below one. -/
theorem draw_up_to_one (live : m.status.isTerminal = false) (fetched : m.fetch = .ok i) (called : m.Calls i .rnd)
    (finite : m.supply.draws.next.1.isFinite = true) (nonneg : 0 ≤ m.supply.draws.next.1.toRat)
    (below : m.supply.draws.next.1.toRat < 1) :
    ∃ next bits, m.step = (next, none) ∧ next.memory.accumulator i.accumulator = ⟨.real, bits⟩ ∧
      next.supply = { m.supply with draws := m.supply.draws.next.2 } ∧
      0 ≤ (StoredReal.decode bits).toRat ∧ (StoredReal.decode bits).toRat ≤ 1 ∧
      ((StoredReal.decode bits).toRat < 1 ↔ m.supply.draws.next.1.toRat < 1 - 1 / 2 ^ 18) := by
  obtain ⟨bits, stored, value⟩ := StoredReal.encode_below_one finite nonneg below
  obtain ⟨next, completed, left, taken⟩ := step_of_draw live fetched called stored
  exact ⟨next, bits, completed, left, taken, value⟩

end

def drawingMachine (number : Binary64) : Machine where
  memory := ⟨(Array.replicate 18 Word.zero).set 8 ⟨.instruction, 0o77100021⟩, by decide⟩
  counter := 8
  supply := { draws := ⟨[number], [number]⟩ }

/-- Three quarters are drawn as they are. -/
theorem drawingMachine_three_quarters :
    let m := drawingMachine (.ofBits 0x3fe8000000000000)
    ∃ next bits, m.step = (next, none) ∧ next.memory.accumulator 1 = ⟨.real, bits⟩ ∧
      next.supply = { m.supply with draws := m.supply.draws.next.2 } ∧
      0 ≤ (StoredReal.decode bits).toRat ∧ (StoredReal.decode bits).toRat ≤ 1 ∧
      ((StoredReal.decode bits).toRat < 1 ↔ m.supply.draws.next.1.toRat < 1 - 1 / 2 ^ 18) := by
  intro m
  have drawn : m.supply.draws.next.1 = .finite false (2 ^ 52 + 2 ^ 51) (-53) := by decide +kernel
  have value : m.supply.draws.next.1.toRat = 3 / 4 := by
    rw [drawn, Binary64.toRat_finite]
    norm_num
  have fetched : m.fetch = .ok ⟨.extra, 1, 0, false, 0, 17⟩ := by decide +kernel
  have called : m.Calls ⟨.extra, 1, 0, false, 0, 17⟩ .rnd := ⟨rfl, by decide +kernel⟩
  exact draw_up_to_one rfl fetched called (by rw [drawn]; rfl) (by rw [value]; norm_num) (by rw [value]; norm_num)

/-- The greatest number below one is drawn as one. -/
theorem drawingMachine_leaves_one :
    let m := drawingMachine (.ofBits 0x3fefffffffffffff)
    m.supply.draws.next.1.isFinite = true ∧ 0 ≤ m.supply.draws.next.1.toRat ∧ m.supply.draws.next.1.toRat < 1 ∧
      m.fetch = .ok ⟨.extra, 1, 0, false, 0, 17⟩ ∧ m.Calls ⟨.extra, 1, 0, false, 0, 17⟩ .rnd ∧
      m.step.2 = none ∧ m.step.1.memory.accumulator 1 = ⟨.real, 0o17600000⟩ ∧
      (StoredReal.decode 0o17600000).toRat = 1 := by
  intro m
  have drawn : m.supply.draws.next.1 = .finite false (2 ^ 53 - 1) (-53) := by decide +kernel
  have one : StoredReal.decode 0o17600000 = .finite false (2 ^ 52) (-52) := by decide +kernel
  rw [drawn, one, Binary64.toRat_finite, Binary64.toRat_finite]
  exact ⟨rfl, by norm_num, by norm_num, by decide +kernel, ⟨rfl, by decide +kernel⟩, by decide +kernel,
    by decide +kernel, by norm_num⟩

end WordMachine.Machine
