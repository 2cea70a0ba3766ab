import WordMachine.Proofs.Machine.Effects

/-!
# Effects are sound

Whatever an instruction does can be applied as it is (`Does.sound`), only the routine that stops the program ends a
run without a fault (`Does.stops_of_halts`), and a fault can be written unless it is for an integer of more than 4300
digits (`Fails.isWritable`). The last holds while index registers hold 24-bit values, which every step keeps; without
that a sum of registers could be of any length.
-/
namespace WordMachine

open Numeric

/-- An effect that can be applied as it is. It goes on at the instruction itself, at one of the two words
after it or at a location of the memory, and stays in place when it halts. -/
structure Effect.Sound (m : Machine) (e : Effect) : Prop where
  write_inside : ∀ location w, e.write = some (location, w) → location < m.memory.size
  index_fits : ∀ n value, e.setIndex = some (n, value) → Word.fits value
  next_near : e.next = m.counter ∨ e.next = m.counter + 1 ∨ e.next = m.counter + 2 ∨
    (0 ≤ e.next ∧ e.next < m.memory.size)
  halts_in_place : e.halts = true → e.next = m.counter

namespace Machine

/-- The instruction brings up an integer that is too long to be written: by a left shift, or from
outside. -/
def BringsUpOverlong (m : Machine) (i : Instruction) : Prop :=
  (i.mnemonic = .shl ∧ ∃ w places value, m.operand i = .ok w ∧ integerOf w = .ok places ∧
    integerOf (m.memory.accumulator i.accumulator) = .ok value ∧
    Text.isWritable (shifted value places) = false) ∨
  (i.mnemonic = .extra ∧ m.calledRoutine i = .ok .read ∧
    ∃ n rest, m.supply.input.next = .number (.integer n) rest ∧ Text.isWritable n = false)

section

variable {m : Machine} {i : Instruction} {e : Effect} {cause : FaultCause}

theorem resolves_ofInstruction (m : Machine) (i : Instruction) :
    (Address.ofInstruction i).Resolves m.memory ((Address.ofInstruction i).sum m.index)
      ((Address.ofInstruction i).resolve m.memory m.index.toList) :=
  Address.resolves_resolve (Address.registered_ofInstruction i)

/-- A resolved address is a location of the memory. -/
theorem resolve_lt_size {n : Nat}
    (resolved : (Address.ofInstruction i).resolve m.memory m.index.toList = .ok n) : n < m.memory.size := by
  have resolves := resolves_ofInstruction m i
  rw [resolved] at resolves
  cases resolves with
  | direct here inside => exact inside
  | followed here inside indirect points there => exact there

theorem effectiveAddress_lt_size {n : Nat} (address : m.effectiveAddress i = .ok n) : n < m.memory.size :=
  resolve_lt_size (mapError_eq_ok_iff.mp address)

/-! ## What is done -/

/-- Whatever an instruction does can be applied as it is. -/
theorem Does.sound (does : m.Does i e) : e.Sound m where
  write_inside location w written := by
    cases does with
    | nothing | setsIndex | jumps | stays | prints | stops => cases written
    | compares taken => cases taken <;> cases written
    | sets | exchanges | computes =>
      cases written
      exact accumulator_inside m i.accumulator
    | stores store address =>
      cases written
      exact effectiveAddress_lt_size address
  index_fits n value set := by
    cases does with
    | nothing | sets | stores | jumps | stays | computes | prints | stops => cases set
    | compares taken => cases taken <;> cases set
    | setsIndex index other addressed fits =>
      cases set
      exact fits
    | exchanges exchange fits =>
      cases set
      exact fits
  next_near := by
    cases does with
    | nothing | sets | setsIndex | exchanges | stores | stays | computes | prints => exact Or.inr (Or.inl rfl)
    | stops => exact Or.inl rfl
    | compares taken =>
      cases taken with
      | true => exact Or.inr (Or.inr (Or.inl rfl))
      | false => exact Or.inr (Or.inl rfl)
    | jumps jump address =>
      have inside := effectiveAddress_lt_size address
      exact Or.inr (Or.inr (Or.inr ⟨Int.natCast_nonneg _, Int.ofNat_lt.mpr inside⟩))
  halts_in_place halts := by
    cases does with
    | stops => rfl
    | nothing | sets | setsIndex | exchanges | stores | jumps | stays | computes | prints => cases halts
    | compares taken => cases taken <;> cases halts

/-- An instruction that ends a run without a fault stops the program, and all it does is to stay where it is. -/
theorem Does.stops_of_halts (does : m.Does i e) (halts : e.halts = true) : m.Calls i .stop ∧ e = m.stopping := by
  cases does with
  | stops called => exact ⟨called, rfl⟩
  | nothing | sets | setsIndex | exchanges | stores | jumps | stays | computes | prints => cases halts
  | compares taken => cases taken <;> cases halts

theorem Does.written (does : m.Does i e) {location : Nat} {w : Word} (wrote : e.write = some (location, w)) :
    m.Written i w := by
  cases does with
  | nothing | setsIndex | jumps | stays | prints | stops => cases wrote
  | compares taken => cases taken <;> cases wrote
  | sets family addressed written =>
    cases wrote
    exact written
  | exchanges exchange fits written =>
    cases wrote
    exact written
  | stores store address written =>
    cases wrote
    exact written
  | computes called computed written =>
    cases wrote
    exact written

/-- The routine that stops the program has number ten. -/
theorem effectiveAddress_of_stop (called : m.calledRoutine i = .ok .stop) :
    m.effectiveAddress i = .ok 10 := by
  obtain ⟨number, address, found⟩ := bind_eq_ok_iff.mp called
  split at found
  next r known =>
    cases found
    have named := List.find?_some known
    have ten : number = 10 := by
      simp only [Routine.number, beq_iff_eq] at named
      exact_mod_cast named.symm
    rw [address, ten]
  · cases found

/-- No instruction that uses its address does anything without a location. -/
theorem Does.addressed (does : m.Does i e) : m.Addressed i := by
  cases does with
  | nothing idle | exchanges idle =>
    intro uses
    rw [idle] at uses
    cases uses
  | sets family addressed => exact addressed
  | setsIndex index other addressed => exact addressed
  | compares taken skip addressed => exact addressed
  | stays jump addressed => exact addressed
  | stores store address => exact fun _ => ⟨_, address⟩
  | jumps jump address => exact fun _ => ⟨_, address⟩
  | computes called | prints called | stops called => exact called.addressed

/-! ## What it fails for -/

theorem BringsUp.isWritable {n : Int} (brought : m.BringsUp i (.integer n)) (registers : m.IndexFits) :
    Text.isWritable n = true ∨ m.BringsUpOverlong i := by
  cases written : Text.isWritable n with
  | true => exact Or.inl rfl
  | false =>
    refine Or.inr ?_
    cases brought with
    -- The other two are what `BringsUpOverlong` names.
    | small bound => cases written.symm.trans (Text.isWritable_of_natAbs_lt (bound registers))
    | shifted shl operand counted held => exact Or.inl ⟨shl, _, _, _, operand, counted, held, written⟩
    | read called delivered => exact Or.inr ⟨called.1, called.2, n, _, delivered, written⟩

/-- Locations stay small while the index registers fit. -/
theorem natAbs_sum_lt (registers : m.IndexFits) (i : Instruction) :
    ((Address.ofInstruction i).sum m.index).natAbs < 10 ^ 100 := by
  have page := i.page.isLt
  have offset := i.offset.isLt
  have index : ∀ value : Int, value.natAbs ≤ 2 ^ 23 →
      ((i.page.val : Int) * 1024 + i.offset.val + value).natAbs < 10 ^ 100 := by
    intro value small
    omega
  unfold Address.sum Address.ofInstruction
  cases indexed : i.indexRegister? with
  | none => exact index 0 (by decide)
  | some n =>
    have value : m.index.toList.getD n.val 0 = m.index.get n := by
      simp [List.getD_eq_getElem?_getD, Vector.get_eq_getElem]
    refine index (m.index.toList.getD n.val 0) ?_
    rw [value]
    exact Word.natAbs_le_of_fits (registers n)

/-- While index registers hold 24 bits, no location is too long to be written. -/
theorem resolve_ne_unwritable (registers : m.IndexFits) (i : Instruction) :
    (Address.ofInstruction i).resolve m.memory m.index.toList ≠ .error .unwritable := by
  intro unresolved
  have resolves := resolves_ofInstruction m i
  rw [unresolved] at resolves
  cases resolves with
  | unshown beyond long => cases long.symm.trans (m.memory.shows_of_natAbs_lt (natAbs_sum_lt registers i))

/-- A reason that cannot be written comes from an overlong integer that the instruction brings up. -/
theorem Fails.isWritable (fails : m.Fails i cause) (registers : m.IndexFits) :
    cause.isWritable = true ∨ m.BringsUpOverlong i := by
  cases fails with
  | @misaddressed e uses unresolved =>
    cases e with
    | unwritable => exact absurd unresolved (resolve_ne_unwritable registers i)
    | outside | noIndexRegister | notAnAddress => exact Or.inl rfl
  | @word e addressed brought =>
    cases e with
    | integerRange n => exact (brought n rfl).isWritable registers
    | _ => exact Or.inl rfl
  | doesNotFit addressed unfit brought => exact brought.isWritable registers
  | unimplemented | noRoutine | notInteger | divisionByZero | captionNeedsText | noValue | beyondRange
  | inputExhausted => exact Or.inl rfl

theorem not_addressed (uses : i.mnemonic.usesAddress = true) {e : MemoryError}
    (unresolved : (Address.ofInstruction i).resolve m.memory m.index.toList = .error e) : ¬ m.Addressed i := by
  intro addressed
  obtain ⟨location, address⟩ := addressed uses
  cases unresolved.symm.trans (mapError_eq_ok_iff.mp address)

/-- An instruction that uses its address fails for nothing else, if there is anything wrong with it. -/
theorem Fails.eq_of_unresolved (fails : m.Fails i cause) (uses : i.mnemonic.usesAddress = true) {e : MemoryError}
    (unresolved : (Address.ofInstruction i).resolve m.memory m.index.toList = .error e) : cause = .address e := by
  have astray := not_addressed uses unresolved
  cases fails with
  | misaddressed uses again =>
    cases unresolved.symm.trans again
    rfl
  | unimplemented other => cases other.symm.trans (Mnemonic.isImplemented_of_usesAddress uses)
  | noRoutine call address => exact absurd (fun _ => ⟨_, address⟩) astray
  | word addressed | notInteger addressed | doesNotFit addressed | divisionByZero addressed =>
    exact absurd addressed astray
  | captionNeedsText called | noValue called | beyondRange called | inputExhausted called =>
    exact absurd called.addressed astray

/-- Nothing is taken from outside for a call whose address is wrong. -/
theorem supply_of_unresolved (unresolved : m.effectiveAddress i = .error cause) : (m.execute i).1 = m.supply := by
  have uncalled : m.calledRoutine i = .error cause := bind_eq_error_iff.mpr (Or.inl unresolved)
  unfold execute
  dsimp only
  split
  case h_7 => rw [executeLibrary, uncalled]
  all_goals rfl

theorem execute_of_unresolved {e : MemoryError} (uses : i.mnemonic.usesAddress = true)
    (unresolved : (Address.ofInstruction i).resolve m.memory m.index.toList = .error e) :
    m.execute i = (m.supply, .error (.fault (.address e))) := by
  have astray := not_addressed uses unresolved
  have kept : (m.execute i).1 = m.supply := supply_of_unresolved (mapError_eq_error_iff.mpr ⟨e, unresolved, rfl⟩)
  have comes := m.execute_spec i
  cases executed : m.execute i with
  | mk supply result =>
    rw [executed] at kept comes
    subst kept
    cases result with
    | ok effect => exact absurd (Does.addressed comes) astray
    | error obstacle =>
      cases obstacle with
      | unreadable word => exact absurd comes.1.addressed astray
      | fault cause => rw [Fails.eq_of_unresolved comes uses unresolved]

end

end Machine

end WordMachine
