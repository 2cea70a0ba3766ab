import WordMachine.Proofs.Machine.Implemented
import WordMachine.Proofs.Machine.Operations

/-!
# What instructions come to

All that carrying out an instruction can come to, said once. It has an effect, with one case for each kind of effect
and what was decided on the way (`Does`), or it fails, with one case for each kind of cause and what was found on the
way (`Fails`). There is one specification for each function that carries out instructions, put together from those of
the functions that it calls, and `execute_spec` is the one for every instruction. Whatever else is known of
instructions is read off the cases.

Of two things that are wrong the first one counts: an instruction that uses its address does nothing and fails for
nothing else unless the address names a location (`Addressed`).
-/
namespace WordMachine

open Numeric

def Routine.prints : Routine → Bool
  | .print | .line | .captn | .page => true
  | _ => false

def Mnemonic.rearranges : Mnemonic → Bool
  | .or | .neqv | .and | .tnot | .rot | .pnot => true
  | _ => false

namespace Machine

/-- Every index register holds a value of 24 bits. -/
def IndexFits (m : Machine) : Prop :=
  ∀ n : Fin 8, Word.fits (m.index.get n)

section

variable (m : Machine) (i : Instruction)

def Calls (r : Routine) : Prop :=
  i.mnemonic = .extra ∧ m.calledRoutine i = .ok r

/-- The instruction skips a word: always, or because its comparison holds. -/
def Skips : Prop :=
  let current := m.memory.accumulator i.accumulator
  match i.mnemonic with
  | .skip => True
  | .skae => ∃ w, m.operand i = .ok w ∧ sameWord current w = true
  | .skan => ∃ w, m.operand i = .ok w ∧ sameWord current w = false
  | .skal => ∃ w, m.operand i = .ok w ∧ order current w = .ok .lt
  | .skag => ∃ w, m.operand i = .ok w ∧ order current w = .ok .gt
  | _ => False

/-- The accumulator holds a number whose comparison with zero passes the test. -/
def Compares (test : Option Ordering → Bool) : Prop :=
  ∃ value, numberOf (m.memory.accumulator i.accumulator) = .ok value ∧
    test (value.compare? (.integer 0)) = true

/-- The instruction goes on at its address: always, or because of its accumulator. -/
def Jumps : Prop :=
  match i.mnemonic with
  | .jump => True
  | .jez => m.Compares i (· == some .eq)
  | .jnz => m.Compares i (· != some .eq)
  | .jlz => m.Compares i (· == some .lt)
  | .jgz => m.Compares i (· == some .gt)
  | _ => False

def Addressed : Prop :=
  i.mnemonic.usesAddress = true → ∃ location, m.effectiveAddress i = .ok location

def stopping : Effect :=
  { next := m.counter, halts := true }

end

/-- The words that an instruction writes: the word of a number, a copy of a word of the memory, or a word of the
memory with other bits under the same tag. -/
inductive Written (m : Machine) (i : Instruction) : Word → Prop where
  | number {n : Number} {w : Word} (made : Word.ofNumber n = .ok w) : Written m i w
  | copied (location : Nat) : Written m i (m.memory.get location)
  | rearranged (location : Nat) (bits : BitVec 24) (allowed : i.mnemonic.rearranges = true) :
    Written m i ((m.memory.get location).withBits bits)

/-- The numbers that an instruction brings up, to be put into a word or a register. None is long while the index
registers fit, but for a value that is shifted to the left and a number from outside. -/
inductive BringsUp (m : Machine) (i : Instruction) : Number → Prop where
  | small {value : Number} (bound : m.IndexFits → Small value) : BringsUp m i value
  | shifted {w : Word} {places value : Int} (shl : i.mnemonic = .shl) (operand : m.operand i = .ok w)
      (counted : integerOf w = .ok places) (held : integerOf (m.memory.accumulator i.accumulator) = .ok value) :
    BringsUp m i (.integer (shifted value places))
  | read {value : Number} {rest : Input} (called : m.Calls i .read)
      (delivered : m.supply.input.next = .number value rest) : BringsUp m i value

/-- What the instruction does when it is carried out. -/
inductive Does (m : Machine) (i : Instruction) : Effect → Prop where
  | nothing (idle : i.mnemonic = .nil) : Does m i m.goOn
  | sets {w : Word} (sets : i.mnemonic.family = .accumulator ∨ i.mnemonic.family = .shift)
      (addressed : m.Addressed i) (written : m.Written i w) : Does m i (m.setAccumulator i.accumulator w)
  | setsIndex {value : Int} (index : i.mnemonic.family = .index) (other : i.mnemonic ≠ .nilx)
      (addressed : m.Addressed i) (fits : Word.fits value) :
    Does m i { m.goOn with setIndex := some (i.accumulator, value) }
  | exchanges {w : Word} {value : Int} (exchange : i.mnemonic = .nilx) (fits : Word.fits value)
      (written : m.Written i w) :
    Does m i { m.goOn with
      setIndex := some (i.accumulator, value)
      write := some (i.accumulator.val, w) }
  | stores {target : Nat} {w : Word} (store : i.mnemonic.family = .store)
      (address : m.effectiveAddress i = .ok target) (written : m.Written i w) : Does m i (m.goOnWriting target w)
  | compares (taken : Bool) (skip : i.mnemonic.family = .skip) (addressed : m.Addressed i)
      (decided : taken = true ↔ m.Skips i) : Does m i (m.skipIf taken)
  | jumps {target : Nat} (jump : i.mnemonic.family = .jump) (address : m.effectiveAddress i = .ok target)
      (taken : m.Jumps i) : Does m i { next := target }
  | stays (jump : i.mnemonic.family = .jump) (addressed : m.Addressed i) (untaken : ¬ m.Jumps i) : Does m i m.goOn
  | computes {r : Routine} {w : Word} (called : m.Calls i r) (computed : r.prints = false ∧ r ≠ .stop)
      (written : m.Written i w) : Does m i (m.setAccumulator i.accumulator w)
  | prints {r : Routine} {text : String} (called : m.Calls i r) (printed : r.prints = true) :
    Does m i { m.goOn with print := some text }
  | stops (called : m.Calls i .stop) : Does m i m.stopping

/-- The reasons that an instruction can fail for. -/
inductive Fails (m : Machine) (i : Instruction) : FaultCause → Prop where
  | unimplemented (other : i.mnemonic.isImplemented = false) : Fails m i (.notImplemented i.mnemonic)
  | misaddressed {e : MemoryError} (uses : i.mnemonic.usesAddress = true)
      (unresolved : (Address.ofInstruction i).resolve m.memory m.index.toList = .error e) : Fails m i (.address e)
  | noRoutine {number : Nat} (call : i.mnemonic = .extra) (address : m.effectiveAddress i = .ok number)
      (unknown : Routine.ofNumber? number = none) : Fails m i (.noRoutine number)
  /-- A word of the wrong kind, a code without a character, or a number that no word holds. -/
  | word {e : WordError} (addressed : m.Addressed i)
      (brought : ∀ n, e = .integerRange n → m.BringsUp i (.integer n)) : Fails m i (.word e)
  | notInteger {found : Tag} (addressed : m.Addressed i) (other : found ≠ .integer) : Fails m i (.notInteger found)
  | doesNotFit {value : Int} (addressed : m.Addressed i) (unfit : ¬ Word.fits value)
      (brought : m.BringsUp i (.integer value)) : Fails m i (.doesNotFit value)
  | divisionByZero {a b : Number} (addressed : m.Addressed i) (zero : b.isZero = true) :
    Fails m i (.divisionByZero a b)
  | captionNeedsText {found : Tag} (called : m.Calls i .captn) (other : found ≠ .text) :
    Fails m i (.captionNeedsText found)
  | noValue {r : Routine} {name : String} {argument : Number} (called : m.Calls i r) :
    Fails m i (.noValue name argument)
  | beyondRange {r : Routine} {name : String} {argument : Number} (called : m.Calls i r) :
    Fails m i (.beyondRange name argument)
  | inputExhausted (called : m.Calls i .read) : Fails m i .inputExhausted

/-- What carrying out the instruction comes to: an effect that it has, a reason that it can fail for, or a word
that it reads and that is no number. -/
def ComesTo (m : Machine) (i : Instruction) : Except Obstacle Effect → Prop
  | .ok e => m.Does i e
  | .error (.fault cause) => m.Fails i cause
  | .error (.unreadable word) => m.Calls i .read ∧ ∃ rest, m.supply.input.next = .unreadable word rest

section

variable {m : Machine} {i : Instruction}

theorem Calls.addressed {r : Routine} (called : m.Calls i r) : m.Addressed i := by
  obtain ⟨number, address, -⟩ := bind_eq_ok_iff.mp called.2
  exact fun _ => ⟨number, address⟩

theorem BringsUp.of_small {value : Number} (small : Small value) : m.BringsUp i value :=
  .small fun _ => small

/-! ## Addresses -/

theorem effectiveAddress_spec (uses : i.mnemonic.usesAddress = true) :
    Gives (fun _ => m.Addressed i) (m.Fails i) (m.effectiveAddress i) := by
  cases address : m.effectiveAddress i with
  | ok location => exact fun _ => ⟨location, address⟩
  | error cause =>
    obtain ⟨e, unresolved, rfl⟩ := mapError_eq_error_iff.mp address
    exact .misaddressed uses unresolved

/-- The word that the address names, unless there is none. -/
theorem operand_spec (uses : i.mnemonic.usesAddress = true) :
    Gives (fun _ => m.Addressed i) (m.Fails i) (m.operand i) :=
  (effectiveAddress_spec uses).map fun _ addressed => addressed

theorem written_of_operand {w : Word} (operand : m.operand i = .ok w) : m.Written i w := by
  obtain ⟨location, -, rfl⟩ := map_eq_ok_iff.mp operand
  exact .copied location

/-! ## Operands and results -/

section

variable (addressed : m.Addressed i)
include addressed

theorem numberOf_spec (w : Word) : Gives Held (m.Fails i) (numberOf w) := by
  cases given : numberOf w with
  | ok value => exact held_of_number (mapError_eq_ok_iff.mp given)
  | error cause =>
    obtain ⟨e, refused, rfl⟩ := mapError_eq_error_iff.mp given
    exact .word addressed fun n range => absurd range (number_ne_integerRange refused n)

theorem integerOf_spec (w : Word) : Gives Word.fits (m.Fails i) (integerOf w) := by
  unfold integerOf
  split
  next => exact Word.fits_toInt w.bits
  next other => exact .notInteger addressed other

theorem fitting_spec {n : Int} (brought : m.BringsUp i (.integer n)) :
    Gives (fun value => value = n ∧ Word.fits n) (m.Fails i) (fitting n) := by
  unfold fitting
  split
  next fits => exact ⟨rfl, fits⟩
  next unfit => exact .doesNotFit addressed unfit brought

/-- The word of a number that the instruction brings up, unless it fits none. -/
theorem wordOf_spec {value : Number} (brought : m.BringsUp i value) :
    Gives (m.Written i) (m.Fails i) (wordOf value) := by
  cases given : wordOf value with
  | ok w => exact .number (mapError_eq_ok_iff.mp given)
  | error cause =>
    obtain ⟨e, refused, rfl⟩ := mapError_eq_error_iff.mp given
    refine .word addressed fun n range => ?_
    subst range
    exact eq_integer_of_integerRange refused ▸ brought

theorem textOf_spec (w : Word) : Gives (fun _ => True) (m.Fails i) (textOf w) := by
  unfold textOf
  cases Charset.unpack w.bits 0 with
  | ok text => exact True.intro
  | error e => exact .word addressed nofun

theorem apply_spec (op : Arithmetic) (a b : Number) : Gives (fun _ => True) (m.Fails i) (op.apply a b) := by
  unfold Arithmetic.apply
  split
  case h_1 | h_2 | h_3 => exact True.intro
  case h_4 =>
    split
    next zero => exact .divisionByZero addressed zero
    next => exact True.intro

theorem order_spec (a b : Word) : Gives (fun _ => True) (m.Fails i) (order a b) := by
  unfold order
  refine (numberOf_spec addressed a).bind fun x _ _ => ?_
  exact (numberOf_spec addressed b).bind fun y _ _ => True.intro

end

/-! ## Accumulators -/

theorem calculate_spec (op : Arithmetic) (family : i.mnemonic.family = .accumulator)
    (uses : i.mnemonic.usesAddress = true) : Gives (m.Does i) (m.Fails i) (m.calculate i op) := by
  unfold calculate
  refine (operand_spec uses).bind fun operand _ addressed => ?_
  refine (numberOf_spec addressed _).bind fun current _ left => ?_
  refine (numberOf_spec addressed operand).bind fun value _ right => ?_
  refine (apply_spec addressed op current value).bind fun result applied _ => ?_
  have brought : m.BringsUp i result := .of_small (small_apply left right applied)
  exact (wordOf_spec addressed brought).bind fun w _ written => .sets (Or.inl family) addressed written

theorem combine_spec (op : Bitwise) (family : i.mnemonic.family = .accumulator)
    (uses : i.mnemonic.usesAddress = true) (allowed : i.mnemonic.rearranges = true) :
    Gives (m.Does i) (m.Fails i) (m.combine i op) := by
  unfold combine
  exact (operand_spec uses).bind fun operand _ addressed =>
    .sets (Or.inl family) addressed (.rearranged _ _ allowed)

/-- What the instructions that set an accumulator do. -/
theorem executeAccumulator_spec (family : i.mnemonic.family = .accumulator)
    (implemented : i.mnemonic.isImplemented = true) : Gives (m.Does i) (m.Fails i) (m.executeAccumulator i) := by
  unfold executeAccumulator
  -- One case for each mnemonic of the family, in the order of its list; so it is in the families below.
  rcases Mnemonic.eq_of_accumulator implemented family with k | k | k | k | k | k | k | k | k | k | k
    <;> rw [k] <;> dsimp only
  · exact .nothing k
  · exact combine_spec .or family (by rw [k]; rfl) (by rw [k]; rfl)
  · exact combine_spec .neqv family (by rw [k]; rfl) (by rw [k]; rfl)
  · exact combine_spec .and family (by rw [k]; rfl) (by rw [k]; rfl)
  · exact calculate_spec .add family (by rw [k]; rfl)
  · exact calculate_spec .subtract family (by rw [k]; rfl)
  · exact calculate_spec .multiply family (by rw [k]; rfl)
  · exact calculate_spec .divide family (by rw [k]; rfl)
  · refine (operand_spec (by rw [k]; rfl)).bind fun w operand addressed => ?_
    exact .sets (Or.inl family) addressed (written_of_operand operand)
  · refine (operand_spec (by rw [k]; rfl)).bind fun operand _ addressed => ?_
    refine (numberOf_spec addressed operand).bind fun value _ held => ?_
    refine (wordOf_spec addressed (.of_small held.small_neg)).bind fun w _ written => ?_
    exact .sets (Or.inl family) addressed written
  · refine (operand_spec (by rw [k]; rfl)).bind fun w operand addressed => ?_
    obtain ⟨location, -, rfl⟩ := map_eq_ok_iff.mp operand
    exact .sets (Or.inl family) addressed (.rearranged location _ (by rw [k]; rfl))

/-! ## Index registers -/

/-- A register takes what a word could hold. -/
theorem setIndexRegister_spec (addressed : m.Addressed i) (n : Fin 8) {value : Int}
    (brought : m.BringsUp i (.integer value)) :
    Gives (fun e => Word.fits value ∧ e = { m.goOn with setIndex := some (n, value) }) (m.Fails i)
      (m.setIndexRegister n value) := by
  unfold setIndexRegister
  refine (fitting_spec addressed brought).bind fun held _ fits => ?_
  rw [fits.1]
  exact ⟨fits.2, rfl⟩

theorem calculateIndex_spec (op : Arithmetic) (family : i.mnemonic.family = .index) (other : i.mnemonic ≠ .nilx)
    (uses : i.mnemonic.usesAddress = true) : Gives (m.Does i) (m.Fails i) (m.calculateIndex i op) := by
  unfold calculateIndex
  refine (operand_spec uses).bind fun w _ addressed => ?_
  refine (integerOf_spec addressed w).bind fun operand _ fits => ?_
  refine (apply_spec addressed op _ _).bind fun result applied _ => ?_
  cases result with
  -- Two integers never make a real, but `apply_spec` does not say so.
  | real x => exact .word addressed nofun
  | integer value =>
    have brought : m.BringsUp i (.integer value) :=
      .small fun registers => small_apply (.integer (registers i.accumulator)) (.integer fits) applied
    refine (setIndexRegister_spec addressed i.accumulator brought).weaken fun e set => ?_
    rw [set.2]
    exact .setsIndex family other addressed set.1

theorem combineIndex_spec (op : Bitwise) (family : i.mnemonic.family = .index) (other : i.mnemonic ≠ .nilx)
    (uses : i.mnemonic.usesAddress = true) : Gives (m.Does i) (m.Fails i) (m.combineIndex i op) := by
  unfold combineIndex
  refine (operand_spec uses).bind fun w _ addressed => ?_
  refine (integerOf_spec addressed w).bind fun operand _ _ => ?_
  refine (setIndexRegister_spec addressed i.accumulator (.of_small (small_of_fits (Word.fits_toInt _)))).weaken
    fun e set => ?_
  rw [set.2]
  exact .setsIndex family other addressed set.1

/-- An exchange has no address that could be wrong. -/
theorem exchange_spec (exchange : i.mnemonic = .nilx) :
    Gives (m.Does i) (m.Fails i) (m.exchange i.accumulator) := by
  have addressed : m.Addressed i := fun uses => by
    rw [exchange] at uses
    cases uses
  unfold Machine.exchange
  refine (integerOf_spec addressed _).bind fun held _ fits => ?_
  have brought : m.BringsUp i (.integer (m.index.get i.accumulator)) :=
    .small fun registers => small_of_fits (registers i.accumulator)
  refine (wordOf_spec addressed brought).bind fun word _ written => ?_
  refine (setIndexRegister_spec addressed i.accumulator (.of_small (small_of_fits fits))).bind fun e _ set => ?_
  rw [set.2]
  exact .exchanges exchange fits written

/-- What the instructions on index registers do. -/
theorem executeIndex_spec (family : i.mnemonic.family = .index) (implemented : i.mnemonic.isImplemented = true) :
    Gives (m.Does i) (m.Fails i) (m.executeIndex i) := by
  unfold executeIndex
  rcases Mnemonic.eq_of_index implemented family with k | k | k | k | k | k | k | k <;> rw [k] <;> dsimp only
  · exact exchange_spec k
  · exact combineIndex_spec .or family (by simp [k]) (by rw [k]; rfl)
  · exact combineIndex_spec .neqv family (by simp [k]) (by rw [k]; rfl)
  · exact combineIndex_spec .and family (by simp [k]) (by rw [k]; rfl)
  · exact calculateIndex_spec .add family (by simp [k]) (by rw [k]; rfl)
  · exact calculateIndex_spec .subtract family (by simp [k]) (by rw [k]; rfl)
  · exact calculateIndex_spec .multiply family (by simp [k]) (by rw [k]; rfl)
  · exact calculateIndex_spec .divide family (by simp [k]) (by rw [k]; rfl)

/-! ## Stores -/

theorem count_spec {target : Nat} {change : Int} (single : change.natAbs = 1)
    (family : i.mnemonic.family = .store) (address : m.effectiveAddress i = .ok target) :
    Gives (m.Does i) (m.Fails i) (m.count target change) := by
  have addressed : m.Addressed i := fun _ => ⟨target, address⟩
  unfold count
  refine (numberOf_spec addressed _).bind fun value _ held => ?_
  have step : Held (.integer change) :=
    .integer (by simp only [Word.fits, Word.minInteger, Word.maxInteger]; omega)
  have brought : m.BringsUp i (value.add (.integer change)) :=
    .of_small (small_arith (fun n m hn hm => by omega) held step)
  exact (wordOf_spec addressed brought).bind fun w _ written => .stores family address written

/-- What the instructions that change the word they name do. -/
theorem executeStore_spec (family : i.mnemonic.family = .store) (implemented : i.mnemonic.isImplemented = true) :
    Gives (m.Does i) (m.Fails i) (m.executeStore i) := by
  unfold executeStore
  rcases Mnemonic.eq_of_store implemented family with k | k | k | k | k <;> rw [k] <;> dsimp only
  · exact (effectiveAddress_spec (by rw [k]; rfl)).bind fun target address _ => .stores family address (.copied _)
  · refine (effectiveAddress_spec (by rw [k]; rfl)).bind fun target address addressed => ?_
    refine (numberOf_spec addressed _).bind fun value _ held => ?_
    refine (wordOf_spec addressed (.of_small held.small_neg)).bind fun w _ written => ?_
    exact .stores family address written
  · exact (effectiveAddress_spec (by rw [k]; rfl)).bind fun target address _ =>
      .stores family address (.rearranged _ _ (by rw [k]; rfl))
  · exact (effectiveAddress_spec (by rw [k]; rfl)).bind fun target address _ => count_spec rfl family address
  · exact (effectiveAddress_spec (by rw [k]; rfl)).bind fun target address _ => count_spec rfl family address

/-! ## Comparisons, shifts and jumps -/

/-- What the instructions that may skip a word do. -/
theorem executeSkip_spec (family : i.mnemonic.family = .skip) (implemented : i.mnemonic.isImplemented = true) :
    Gives (m.Does i) (m.Fails i) (m.executeSkip i) := by
  unfold executeSkip
  rcases Mnemonic.eq_of_skip implemented family with k | k | k | k | k
  · have idle : m.Addressed i := fun uses => by
      rw [k] at uses
      cases uses
    rw [k]
    exact .compares _ family idle (by simp [Skips, k])
  · rw [k]
    exact (operand_spec (by rw [k]; rfl)).bind fun w operand addressed =>
      .compares _ family addressed (by simp [Skips, k, operand])
  · rw [k]
    exact (operand_spec (by rw [k]; rfl)).bind fun w operand addressed =>
      .compares _ family addressed (by simp [Skips, k, operand])
  · rw [k]
    refine (operand_spec (by rw [k]; rfl)).bind fun w operand addressed => ?_
    exact (order_spec addressed _ w).bind fun o ordered _ =>
      .compares _ family addressed (by simp [Skips, k, operand, ordered])
  · rw [k]
    refine (operand_spec (by rw [k]; rfl)).bind fun w operand addressed => ?_
    exact (order_spec addressed _ w).bind fun o ordered _ =>
      .compares _ family addressed (by simp [Skips, k, operand, ordered])

/-- A left shift is the one instruction that makes a long integer out of words. -/
theorem executeShift_spec (family : i.mnemonic.family = .shift) (implemented : i.mnemonic.isImplemented = true) :
    Gives (m.Does i) (m.Fails i) (m.executeShift i) := by
  unfold executeShift
  rcases Mnemonic.eq_of_shift implemented family with k | k <;> rw [k] <;> dsimp only
  · refine (operand_spec (by rw [k]; rfl)).bind fun w operand addressed => ?_
    refine (integerOf_spec addressed w).bind fun places counted _ => ?_
    refine (integerOf_spec addressed _).bind fun value held _ => ?_
    -- Only until it is found to fit can the shifted value be long.
    refine (fitting_spec addressed (.shifted k operand counted held)).bind fun result _ fits => ?_
    have brought : m.BringsUp i (.integer result) := .of_small (small_of_fits (fits.1 ▸ fits.2))
    exact (wordOf_spec addressed brought).bind fun w _ written => .sets (Or.inr family) addressed written
  · refine (operand_spec (by rw [k]; rfl)).bind fun w _ addressed => ?_
    exact (integerOf_spec addressed w).bind fun places _ _ =>
      .sets (Or.inr family) addressed (.rearranged _ _ (by rw [k]; rfl))

theorem jumpIf_spec (test : Option Ordering → Bool) (family : i.mnemonic.family = .jump)
    (uses : i.mnemonic.usesAddress = true) (conditional : m.Jumps i ↔ m.Compares i test) :
    Gives (m.Does i) (m.Fails i) (m.jumpIf i test) := by
  unfold jumpIf
  refine (effectiveAddress_spec uses).bind fun target address addressed => ?_
  refine (numberOf_spec addressed _).bind fun value held _ => ?_
  have decided : m.Jumps i ↔ test (value.compare? (.integer 0)) = true := by
    simp [conditional, Compares, held]
  show m.Does i (if test (value.compare? (.integer 0)) then { next := target } else m.goOn)
  split
  next passed => exact .jumps family address (decided.mpr passed)
  next failed => exact .stays family addressed fun jumps => failed (decided.mp jumps)

/-- What the instructions that go on elsewhere do. They resolve their address also when they stay. -/
theorem executeJump_spec (family : i.mnemonic.family = .jump) (implemented : i.mnemonic.isImplemented = true) :
    Gives (m.Does i) (m.Fails i) (m.executeJump i) := by
  unfold executeJump
  rcases Mnemonic.eq_of_jump implemented family with k | k | k | k | k <;> rw [k] <;> dsimp only
  · exact (effectiveAddress_spec (by rw [k]; rfl)).bind fun target address _ =>
      .jumps family address (by simp [Jumps, k])
  · exact jumpIf_spec _ family (by rw [k]; rfl) (by simp [Jumps, k])
  · exact jumpIf_spec _ family (by rw [k]; rfl) (by simp [Jumps, k])
  · exact jumpIf_spec _ family (by rw [k]; rfl) (by simp [Jumps, k])
  · exact jumpIf_spec _ family (by rw [k]; rfl) (by simp [Jumps, k])

/-! ## The library -/

theorem calledRoutine_spec (call : i.mnemonic = .extra) : Gives (m.Calls i) (m.Fails i) (m.calledRoutine i) := by
  cases called : m.calledRoutine i with
  | ok r => exact ⟨call, called⟩
  | error cause =>
    rcases bind_eq_error_iff.mp called with unresolved | ⟨number, address, unnamed⟩
    · have addressing := effectiveAddress_spec (m := m) (i := i) (by rw [call]; rfl)
      rw [unresolved] at addressing
      exact addressing
    · split at unnamed
      · cases unnamed
      next unknown =>
        cases unnamed
        exact .noRoutine call address unknown

section

variable {r : Routine} (called : m.Calls i r)
include called

theorem applyFunction_spec (f : RealFunction) (computed : r.prints = false ∧ r ≠ .stop) :
    Gives (m.Does i) (m.Fails i) (m.applyFunction i.accumulator f) := by
  unfold applyFunction
  refine (numberOf_spec called.addressed _).bind fun argument _ _ => ?_
  split
  · exact .noValue called
  · exact .beyondRange called
  next value _ _ =>
    have brought : m.BringsUp i (.real (f.apply argument.toReal)) := .of_small True.intro
    exact (wordOf_spec called.addressed brought).bind fun w _ written => .computes called computed written

theorem replaceNumber_spec {f : Number → Number} (small : ∀ value, Held value → Small (f value))
    (computed : r.prints = false ∧ r ≠ .stop) :
    Gives (m.Does i) (m.Fails i) (m.replaceNumber i.accumulator f) := by
  unfold replaceNumber
  refine (numberOf_spec called.addressed _).bind fun value _ held => ?_
  refine (wordOf_spec called.addressed (.of_small (small value held))).bind fun w _ written => ?_
  exact .computes called computed written

theorem printAccumulator_spec (printed : r.prints = true) :
    Gives (m.Does i) (m.Fails i) (m.printAccumulator i.accumulator) := by
  unfold printAccumulator
  dsimp only
  split
  · exact (textOf_spec called.addressed _).bind fun text _ _ => .prints called printed
  · refine Gives.bind (P := fun _ => True) ?_ fun text _ _ => .prints called printed
    exact (numberOf_spec called.addressed _).map fun _ _ => True.intro

omit called in
theorem printCaption_spec (called : m.Calls i .captn) :
    Gives (m.Does i) (m.Fails i) (m.printCaption i.accumulator) := by
  unfold printCaption
  dsimp only
  split
  next => exact (textOf_spec called.addressed _).bind fun text _ _ => .prints called rfl
  next other => exact .captionNeedsText called other

/-- What a routine does that takes nothing from outside. -/
theorem plainRoutine_spec (plain : r ≠ .read ∧ r ≠ .rnd) :
    Gives (m.Does i) (m.Fails i) (m.plainRoutine i.accumulator r) := by
  cases r with
  | sqrt | ln | exp | sin | cos | tan | atn => exact applyFunction_spec called _ (by decide)
  | print => exact printAccumulator_spec called rfl
  | captn => exact printCaption_spec called
  | line | page => exact .prints called rfl
  | stop => exact .stops called
  | int => exact replaceNumber_spec called (fun _ held => held.small_integerPart) (by decide)
  | frac | float => exact replaceNumber_spec called (fun _ _ => True.intro) (by decide)
  | abs => exact replaceNumber_spec called (fun _ held => held.small_abs) (by decide)
  | read => exact absurd rfl plain.1
  | rnd => exact absurd rfl plain.2

end

/-! ## Every instruction -/

/-- What gives an effect that the instruction has comes to it. -/
theorem Gives.comesTo {result : Except FaultCause Effect} (gives : Gives (m.Does i) (m.Fails i) result) :
    m.ComesTo i (result.mapError .fault) := by
  cases result with
  | ok e => exact gives
  | error cause => exact gives

/-- A number from outside may be of any length. -/
theorem readNumber_spec (called : m.Calls i .read) : m.ComesTo i (m.readNumber i.accumulator).2 := by
  unfold readNumber
  dsimp only
  cases delivered : m.supply.input.next with
  | exhausted rest => exact .inputExhausted called
  | unreadable word rest => exact ⟨called, rest, delivered⟩
  | number value rest =>
    have word := wordOf_spec called.addressed (.read called delivered)
    exact (word.map fun w written => .computes called (by decide) written).comesTo

theorem drawNumber_spec (called : m.Calls i .rnd) : m.ComesTo i (m.drawNumber i.accumulator).2 := by
  unfold drawNumber
  have word : Gives (m.Written i) (m.Fails i) (wordOf (.real m.supply.draws.next.1)) :=
    wordOf_spec called.addressed (.of_small True.intro)
  exact (word.map fun w written => .computes called (by decide) written).comesTo

theorem callRoutine_spec {r : Routine} (called : m.Calls i r) :
    m.ComesTo i (m.callRoutine i.accumulator r).2 := by
  unfold callRoutine
  split
  · exact readNumber_spec called
  · exact drawNumber_spec called
  next unread undrawn => exact (plainRoutine_spec called ⟨unread, undrawn⟩).comesTo

theorem executeLibrary_spec (call : i.mnemonic = .extra) : m.ComesTo i (m.executeLibrary i).2 := by
  have names := calledRoutine_spec (m := m) call
  unfold executeLibrary
  cases called : m.calledRoutine i with
  | error cause =>
    rw [called] at names
    exact names
  | ok r => exact callRoutine_spec ⟨call, called⟩

/-- Every instruction does what it has to do, or fails for a reason that it has. -/
theorem execute_spec (m : Machine) (i : Instruction) : m.ComesTo i (m.execute i).2 := by
  cases implemented : i.mnemonic.isImplemented with
  | false =>
    rw [execute_of_unimplemented implemented]
    exact .unimplemented implemented
  | true =>
    unfold execute
    dsimp only
    split
    next family => exact (executeAccumulator_spec family implemented).comesTo
    next family => exact (executeIndex_spec family implemented).comesTo
    next family => exact (executeStore_spec family implemented).comesTo
    next family => exact (executeSkip_spec family implemented).comesTo
    next family => exact (executeShift_spec family implemented).comesTo
    next family => exact (executeJump_spec family implemented).comesTo
    next library => exact executeLibrary_spec (Mnemonic.eq_extra_of_library library)

variable {supply : Supply} {e : Effect} {cause : FaultCause}

theorem execute_does (executed : m.execute i = (supply, .ok e)) : m.Does i e := by
  have comes := m.execute_spec i
  rwa [executed] at comes

theorem execute_fails (executed : m.execute i = (supply, .error (.fault cause))) : m.Fails i cause := by
  have comes := m.execute_spec i
  rwa [executed] at comes

end

end Machine

end WordMachine
