import WordMachine.Proofs.Machine.IndexArithmetic

/-!
# Rotations and shifts

A rotation by any count, of either sign, only renumbers the 24 places of a word (`getLsbD_rotated`): so rotations add
up, whole turns change nothing, and a rotation is possible of every word. A shift works on the integer and not on the
bits of a word: to the left it is a multiplication, and is carried out exactly when a word holds the product; to the
right it is a division that rounds down.
-/
namespace WordMachine.Machine

/-! ## Bits and integers -/

/-- A place of the rotated bits is the place that many further down, around the end if need be. -/
theorem getLsbD_rotated (bits : BitVec 24) (count : Int) {place : Nat} (inside : place < 24) :
    (rotated bits count).getLsbD place = bits.getLsbD ((place - count) % 24).toNat := by
  obtain ⟨k, turn⟩ : ∃ k : Nat, count % 24 = k := ⟨(count % 24).toNat, by omega⟩
  have small : k % 24 = k := by omega
  have turned : (count.emod 24).toNat = k := by
    show (count % 24).toNat = k
    omega
  rw [rotated, turned, BitVec.getLsbD_rotateLeft, small]
  by_cases wraps : place < k
  · rw [decide_eq_true wraps, cond_true]
    congr 1
    omega
  · rw [decide_eq_false wraps, cond_false, decide_eq_true inside, Bool.true_and]
    congr 1
    omega

/-- Two rotations are one by the sum of their counts. -/
theorem rotated_rotated (bits : BitVec 24) (i j : Int) : rotated (rotated bits i) j = rotated bits (i + j) := by
  apply BitVec.eq_of_getLsbD_eq
  intro place inside
  rw [getLsbD_rotated _ j inside, getLsbD_rotated _ i (by omega), getLsbD_rotated _ (i + j) inside]
  congr 1
  omega

/-- Whole turns change nothing. -/
theorem rotated_of_dvd (bits : BitVec 24) {count : Int} (turns : 24 ∣ count) : rotated bits count = bits := by
  apply BitVec.eq_of_getLsbD_eq
  intro place inside
  rw [getLsbD_rotated bits count inside]
  congr 1
  omega

theorem shifted_natCast (v : Int) (k : Nat) : shifted v k = v * 2 ^ k := by
  simp [shifted]

/-- To the right, an integer is divided, rounding down. -/
theorem shifted_neg (v : Int) (k : Nat) : shifted v (-k) = v / 2 ^ k := by
  cases k with
  | zero => simp [shifted]
  | succ k =>
    have below : ¬ (0 : Int) ≤ -((k + 1 : Nat) : Int) := by omega
    rw [shifted, if_neg below, Int.neg_neg, Int.toNat_natCast]
    exact Int.fdiv_eq_ediv_of_nonneg v (by positivity)

/-- The quotient is rounded down. -/
theorem div_two_pow_eq_floor (v : Int) (k : Nat) : v / 2 ^ k = ⌊(v : ℚ) / 2 ^ k⌋ := by
  have whole := Rat.floor_intCast_div_natCast v (2 ^ k)
  push_cast at whole
  exact whole.symm

theorem fits_div {v : Int} (fits : Word.fits v) (k : Nat) : Word.fits (v / 2 ^ k) := by
  have divisor : (0 : Int) < 2 ^ k := by positivity
  rw [fits_iff] at fits ⊢
  have low : -2 ^ 23 ≤ v / 2 ^ k := (Int.le_ediv_iff_mul_le divisor).mpr (by nlinarith)
  have high : v / 2 ^ k < 2 ^ 23 := (Int.ediv_lt_iff_lt_mul divisor).mpr (by nlinarith)
  omega

/-! ## Steps -/

/-- The next instruction, a shift or a rotation, changes an accumulator by a count that its operand holds. -/
structure Shifts (m : Machine) (mnemonic : Mnemonic) (n : Fin 8) (count : Int) : Prop where
  live : m.status.isTerminal = false
  instruction : ∃ i w, m.fetch = .ok i ∧ i.mnemonic = mnemonic ∧ i.accumulator = n ∧ m.operand i = .ok w ∧
    w.HoldsInteger count

section

variable {m k : Machine} {n p : Fin 8} {v count : Int}

/-- A rotation completes, whatever word is rotated. -/
theorem Shifts.rotates (rotates : m.Shifts .rot n count) :
    ∃ next, m.step = (next, none) ∧ next.memory.accumulator n =
      (m.memory.accumulator n).withBits (rotated (m.memory.accumulator n).bits count) := by
  obtain ⟨live, i, w, fetched, rot, rfl, operand, holds⟩ := rotates
  have executed : m.execute i = (m.supply, .ok (m.setAccumulator i.accumulator
      ((m.memory.accumulator i.accumulator).withBits (rotated (m.memory.accumulator i.accumulator).bits count)))) := by
    have family : Mnemonic.rot.family = .shift := rfl
    simp only [execute, rot, family, executeShift, operand, bind, Except.bind, integerOf_of_holds holds]
    rfl
  exact ⟨_, step_of_completed live fetched executed, accumulator_complete m (shownName i) i.accumulator _⟩

/-- A shift comes to an accumulator with the shifted integer, if it fits. -/
theorem Shifts.shifts (shifts : m.Shifts .shl n count) (holds : (m.memory.accumulator n).HoldsInteger v)
    (fits : Word.fits (shifted v count)) :
    ∃ next, m.step = (next, none) ∧ (next.memory.accumulator n).HoldsInteger (shifted v count) := by
  obtain ⟨live, i, w, fetched, shl, rfl, operand, counted⟩ := shifts
  obtain ⟨made, word, value⟩ := exists_wordOf fits
  have executed : m.execute i = (m.supply, .ok (m.setAccumulator i.accumulator made)) := by
    have family : Mnemonic.shl.family = .shift := rfl
    simp only [execute, shl, family, executeShift, operand, bind, Except.bind, integerOf_of_holds counted,
      integerOf_of_holds holds, fitting, if_pos fits, word]
    rfl
  refine ⟨_, step_of_completed live fetched executed, ?_⟩
  rw [accumulator_complete m (shownName i)]
  exact value

/-- A shift does not complete if the shifted integer does not fit. -/
theorem Shifts.incomplete (shifts : m.Shifts .shl n count) (holds : (m.memory.accumulator n).HoldsInteger v)
    (unfit : ¬ Word.fits (shifted v count)) (next : Machine) : m.step ≠ (next, none) := by
  obtain ⟨live, i, w, fetched, shl, rfl, operand, counted⟩ := shifts
  have executed : m.execute i = (m.supply, .error (.fault (.doesNotFit (shifted v count)))) := by
    have family : Mnemonic.shl.family = .shift := rfl
    simp only [execute, shl, family, executeShift, operand, bind, Except.bind, integerOf_of_holds counted,
      integerOf_of_holds holds, fitting, if_neg unfit]
    rfl
  rw [step_of_faulted live fetched executed]
  exact fun completed => trouble_faultWith _ _ _ (congrArg Prod.snd completed)

/-- Two rotations come to the one by the sum of their counts. -/
theorem Shifts.rotates_twice {next : Machine} {i j : Int} (first : m.Shifts .rot n i)
    (completed : m.step = (next, none)) (second : next.Shifts .rot n j) (both : k.Shifts .rot p (i + j))
    (same : k.memory.accumulator p = m.memory.accumulator n) :
    ∃ last other, next.step = (last, none) ∧ k.step = (other, none) ∧
      other.memory.accumulator p = last.memory.accumulator n := by
  obtain ⟨once, completed', turned⟩ := first.rotates
  cases completed.symm.trans completed'
  obtain ⟨last, again, turned_again⟩ := second.rotates
  obtain ⟨other, at_once, turned_at_once⟩ := both.rotates
  refine ⟨last, other, again, at_once, ?_⟩
  rw [turned_again, turned_at_once, turned, same]
  simp only [Word.withBits, rotated_rotated]

/-- A shift completes exactly if its result fits. -/
theorem Shifts.completes_iff (shifts : m.Shifts .shl n count) (holds : (m.memory.accumulator n).HoldsInteger v) :
    (∃ next, m.step = (next, none)) ↔ Word.fits (shifted v count) := by
  constructor
  · rintro ⟨next, completed⟩
    by_contra unfit
    exact shifts.incomplete holds unfit next completed
  · intro fits
    obtain ⟨next, completed, -⟩ := shifts.shifts holds fits
    exact ⟨next, completed⟩

theorem Shifts.shifts_right {places : Nat} (shifts : m.Shifts .shl n (-places))
    (holds : (m.memory.accumulator n).HoldsInteger v) :
    ∃ next, m.step = (next, none) ∧ (next.memory.accumulator n).HoldsInteger (v / 2 ^ places) := by
  have fits : Word.fits (shifted v (-places)) := shifted_neg v places ▸ fits_div holds.fits places
  have shifted := shifts.shifts holds fits
  rwa [shifted_neg] at shifted

/-- A shift to the left is undone by the shift to the right. -/
theorem Shifts.shifts_back {next : Machine} {places : Nat} (shifts : next.Shifts .shl n (-places))
    (product : (next.memory.accumulator n).HoldsInteger (v * 2 ^ places)) :
    ∃ last, next.step = (last, none) ∧ (last.memory.accumulator n).HoldsInteger v := by
  have divided := shifts.shifts_right product
  rwa [Int.mul_ediv_cancel v (by positivity)] at divided

/-- Rotations are possible of every word and add up; shifts multiply or divide exactly or, to the left, do not
complete. -/
theorem shift_and_rotate_laws (m : Machine) (n : Fin 8) :
    (∀ i, m.Shifts .rot n i → ∃ next, m.step = (next, none) ∧
      (next.memory.accumulator n).tag = (m.memory.accumulator n).tag ∧
      (24 ∣ i → next.memory.accumulator n = m.memory.accumulator n) ∧
      ∀ (j : Int) (k : Machine) (p : Fin 8), next.Shifts .rot n j → k.Shifts .rot p (i + j) →
        k.memory.accumulator p = m.memory.accumulator n →
        ∃ last other, next.step = (last, none) ∧ k.step = (other, none) ∧
          other.memory.accumulator p = last.memory.accumulator n) ∧
    (∀ v (places : Nat), (m.memory.accumulator n).HoldsInteger v → m.Shifts .shl n places →
      ((∃ next, m.step = (next, none)) ↔ -2 ^ 23 ≤ v * 2 ^ places ∧ v * 2 ^ places ≤ 2 ^ 23 - 1) ∧
      ∀ next, m.step = (next, none) → (next.memory.accumulator n).HoldsInteger (v * 2 ^ places) ∧
        (next.Shifts .shl n (-places) →
          ∃ last, next.step = (last, none) ∧ (last.memory.accumulator n).HoldsInteger v)) ∧
    (∀ v (places : Nat), (m.memory.accumulator n).HoldsInteger v → m.Shifts .shl n (-places) →
      ∃ next, m.step = (next, none) ∧ (next.memory.accumulator n).HoldsInteger ⌊(v : ℚ) / 2 ^ places⌋) := by
  refine ⟨fun i rotates => ?_, fun v places holds shifts => ?_, fun v places holds shifts => ?_⟩
  · obtain ⟨next, completed, turned⟩ := rotates.rotates
    refine ⟨next, completed, ?_, fun turns => ?_, fun j k p second both same => ?_⟩
    · rw [turned]
      rfl
    · rw [turned, rotated_of_dvd _ turns]
      rfl
    · exact rotates.rotates_twice completed second both same
  · have product := shifted_natCast v places
    have completes := shifts.completes_iff holds
    rw [product] at completes
    refine ⟨completes, fun next completed => ?_⟩
    have fits := completes.mp ⟨next, completed⟩
    obtain ⟨other, again, value⟩ := shifts.shifts holds (product.symm ▸ fits)
    cases completed.symm.trans again
    rw [product] at value
    exact ⟨value, fun back => back.shifts_back value⟩
  · rw [← div_two_pow_eq_floor]
    exact shifts.shifts_right holds

end

/-- A program of two shifts or rotations of accumulator 1, by the counts in locations 10 and 11. -/
def turningMachine (mnemonic : Mnemonic) (w first second : Word) : Machine where
  memory := ⟨(((((Array.replicate 12 Word.zero).setIfInBounds 1 w).setIfInBounds 8
    (Instruction.encode { Instruction.ofBits 0o00100012 with mnemonic })).setIfInBounds 9
    (Instruction.encode { Instruction.ofBits 0o00100013 with mnemonic })).setIfInBounds 10 first).setIfInBounds 11
    second, Nat.le_of_ble_eq_true rfl⟩
  counter := 8

/-- A text turned by five places to the right and by 29 to the left is turned by 24; an integer shifted by 21 places to
the left comes back. -/
theorem turningMachine_laws :
    let turning := turningMachine .rot ⟨.text, 0o01020304⟩ ⟨.integer, -5⟩ ⟨.integer, 29⟩
    let whole := turningMachine .rot ⟨.text, 0o01020304⟩ ⟨.integer, 24⟩ Word.zero
    let shifting := turningMachine .shl ⟨.integer, -3⟩ ⟨.integer, 21⟩ ⟨.integer, -21⟩
    (turning.Shifts .rot 1 (-5) ∧ turning.step.1.Shifts .rot 1 29 ∧ whole.Shifts .rot 1 (-5 + 29) ∧
      ∃ last other, turning.step.1.step = (last, none) ∧ whole.step = (other, none) ∧
        other.memory.accumulator 1 = last.memory.accumulator 1) ∧
    ((shifting.memory.accumulator 1).HoldsInteger (-3) ∧ shifting.Shifts .shl 1 (21 : Nat) ∧
      shifting.step.1.Shifts .shl 1 (-(21 : Nat)) ∧
      ∃ last, shifting.step.1.step = (last, none) ∧ (last.memory.accumulator 1).HoldsInteger (-3)) := by
  intro turning whole shifting
  have first : turning.Shifts .rot 1 (-5) :=
    ⟨rfl, ⟨.rot, 1, 0, false, 0, 10⟩, ⟨.integer, -5⟩, by decide +kernel, rfl, rfl, by decide +kernel, rfl⟩
  have second : turning.step.1.Shifts .rot 1 29 :=
    ⟨by decide +kernel, ⟨.rot, 1, 0, false, 0, 11⟩, ⟨.integer, 29⟩, by decide +kernel, rfl, rfl, by decide +kernel, rfl⟩
  have both : whole.Shifts .rot 1 (-5 + 29) :=
    ⟨rfl, ⟨.rot, 1, 0, false, 0, 10⟩, ⟨.integer, 24⟩, by decide +kernel, rfl, rfl, by decide +kernel, rfl⟩
  have left : shifting.Shifts .shl 1 (21 : Nat) :=
    ⟨rfl, ⟨.shl, 1, 0, false, 0, 10⟩, ⟨.integer, 21⟩, by decide +kernel, rfl, rfl, by decide +kernel, rfl⟩
  have right : shifting.step.1.Shifts .shl 1 (-(21 : Nat)) :=
    ⟨by decide +kernel, ⟨.shl, 1, 0, false, 0, 11⟩, ⟨.integer, -21⟩, by decide +kernel, rfl, rfl, by decide +kernel,
      rfl⟩
  have held : (shifting.memory.accumulator 1).HoldsInteger (-3) := rfl
  refine ⟨⟨first, second, both, ?_⟩, held, left, right, ?_⟩
  · obtain ⟨next, completed, -, -, twice⟩ := (shift_and_rotate_laws turning 1).1 (-5) first
    have same : turning.step.1 = next := congrArg Prod.fst completed
    rw [same] at second ⊢
    exact twice 29 whole 1 second both rfl
  · obtain ⟨completes, exactly⟩ := (shift_and_rotate_laws shifting 1).2.1 (-3) 21 held left
    obtain ⟨next, completed⟩ := completes.mpr (by decide)
    have same : shifting.step.1 = next := congrArg Prod.fst completed
    rw [same] at right ⊢
    exact (exactly next completed).2 right

end WordMachine.Machine
