import WordMachine.Proofs.Machine.StepOutcome

/-!
# Comparisons

Four comparisons of numbers decide over skips and over jumps: a skip compares the accumulator with the operand, a jump
compares it with zero. Both compare the rationals that the words stand for (`verdict_of_numbers`), so integers and reals
may be mixed, and so may reals of any pattern of bits. Words that are no numbers are equal or not as they stand, and
have no order (`verdict_of_other`).
-/
namespace WordMachine

open Numeric

/-- A comparison that decides over a skip, of two words, and over a jump, of one word with zero. -/
inductive Comparison where
  | equal | unequal | less | greater
  deriving DecidableEq, Repr

namespace Comparison

/-- The instruction that skips a word if the accumulator compares so with the operand. -/
def skip : Comparison → Mnemonic
  | .equal => .skae
  | .unequal => .skan
  | .less => .skal
  | .greater => .skag

def jump : Comparison → Mnemonic
  | .equal => .jez
  | .unequal => .jnz
  | .less => .jlz
  | .greater => .jgz

def swap : Comparison → Comparison
  | .less => .greater
  | .greater => .less
  | x => x

def holds : Comparison → Ordering → Bool
  | .equal, o => o == .eq
  | .unequal, o => o != .eq
  | .less, o => o == .lt
  | .greater, o => o == .gt

/-- The three comparisons of which one holds. -/
def exclusive : List Comparison :=
  [.less, .equal, .greater]

def judge (x : Comparison) (a b : Word) : Except FaultCause Bool :=
  match x with
  | .equal => .ok (Machine.sameWord a b)
  | .unequal => .ok (!Machine.sameWord a b)
  | .less => (· == .lt) <$> Machine.order a b
  | .greater => (· == .gt) <$> Machine.order a b

/-- Whether two words compare so, if they can be compared. -/
def verdict (x : Comparison) (a b : Word) : Option Bool :=
  (x.judge a b).toOption

theorem holds_swap (x : Comparison) (o : Ordering) : x.swap.holds o.swap = x.holds o := by
  cases x <;> cases o <;> rfl

theorem holds_unequal (o : Ordering) : Comparison.unequal.holds o = !Comparison.equal.holds o := by
  cases o <;> rfl

/-- One of the three holds, and the others do not. -/
theorem exists_holds (o : Ordering) :
    ∃ x ∈ exclusive, x.holds o = true ∧ ∀ y ∈ exclusive, y ≠ x → y.holds o = false := by
  cases o with
  | lt => exact ⟨.less, by decide⟩
  | eq => exact ⟨.equal, by decide⟩
  | gt => exact ⟨.greater, by decide⟩

end Comparison

/-! ## Words -/

namespace Word

variable {w : Word} {n : Number}

theorem isFinite_of_number (number : w.number = .ok n) : n.IsFinite := by
  obtain ⟨tag, bits⟩ := w
  cases tag with
  | integer =>
    cases number
    trivial
  | real =>
    cases number
    exact StoredReal.isFinite_decode bits
  | text | instruction => cases number

theorem exists_number (numeric : w.isNumeric = true) : ∃ n, w.number = .ok n := by
  obtain ⟨tag, bits⟩ := w
  cases tag with
  | integer | real => exact ⟨_, rfl⟩
  | text | instruction => cases numeric

theorem exists_mismatch (other : ¬ w.isNumeric = true) :
    ∃ expected found, w.number = .error (.mismatch expected found) := by
  obtain ⟨tag, bits⟩ := w
  cases tag with
  | integer | real => exact absurd rfl other
  | text | instruction => exact ⟨_, _, rfl⟩

end Word

namespace Comparison

variable {a b : Word} {p q : Number}

/-- Numeric words compare as their rationals do. -/
theorem verdict_of_numbers (left : a.number = .ok p) (right : b.number = .ok q) (x : Comparison) :
    x.verdict a b = some (x.holds (cmp p.toRat q.toRat)) := by
  have compared := Number.compare?_eq_cmp (Word.isFinite_of_number left) (Word.isFinite_of_number right)
  have order : Machine.order a b = .ok (cmp p.toRat q.toRat) := by
    simp only [Machine.order, Machine.numberOf, left, right, Except.mapError, bind, Except.bind, compared]
    rfl
  have same : Machine.sameWord a b = equal.holds (cmp p.toRat q.toRat) := by
    simp only [Machine.sameWord, left, right, Number.sameValue, compared]
    rfl
  cases x with
  | equal => rw [verdict, judge, same, Except.toOption]
  | unequal => rw [verdict, judge, same, ← holds_unequal, Except.toOption]
  | less | greater =>
    rw [verdict, judge, order]
    rfl

/-- Words that are not both numeric are equal if they are the same word, and have no order. -/
theorem unordered (other : ¬ (a.isNumeric = true ∧ b.isNumeric = true)) :
    Machine.sameWord a b = (a == b) ∧
      ∃ expected found, Machine.order a b = .error (.word (.mismatch expected found)) := by
  by_cases numeric : a.isNumeric = true
  · obtain ⟨p, left⟩ := Word.exists_number numeric
    obtain ⟨expected, found, right⟩ := Word.exists_mismatch fun too => other ⟨numeric, too⟩
    refine ⟨by simp only [Machine.sameWord, left, right], expected, found, ?_⟩
    simp only [Machine.order, Machine.numberOf, left, right, Except.mapError, bind, Except.bind]
  · obtain ⟨expected, found, left⟩ := Word.exists_mismatch numeric
    refine ⟨by simp only [Machine.sameWord, left], expected, found, ?_⟩
    simp only [Machine.order, Machine.numberOf, left, Except.mapError, bind, Except.bind]

theorem verdict_of_other (other : ¬ (a.isNumeric = true ∧ b.isNumeric = true)) (x : Comparison) :
    x.verdict a b = match x with
      | .equal => some (a == b)
      | .unequal => some (a != b)
      | .less | .greater => none := by
  obtain ⟨same, expected, found, order⟩ := unordered other
  cases x with
  | equal | unequal =>
    rw [verdict, judge, same]
    rfl
  | less | greater =>
    rw [verdict, judge, order]
    rfl

/-- Words without a verdict are of the wrong kind. -/
theorem mismatch_of_judge {x : Comparison} {cause : FaultCause} (failed : x.judge a b = .error cause) :
    ∃ expected found, cause = .word (.mismatch expected found) := by
  by_cases numeric : a.isNumeric = true ∧ b.isNumeric = true
  · obtain ⟨p, left⟩ := Word.exists_number numeric.1
    obtain ⟨q, right⟩ := Word.exists_number numeric.2
    have judged := verdict_of_numbers left right x
    rw [verdict, failed] at judged
    cases judged
  · obtain ⟨-, expected, found, order⟩ := unordered numeric
    cases x with
    | equal | unequal => cases failed
    | less | greater =>
      rw [judge, order] at failed
      cases failed
      exact ⟨expected, found, rfl⟩

/-- The sides of a comparison may be exchanged. -/
theorem verdict_swap (x : Comparison) (a b : Word) : x.swap.verdict b a = x.verdict a b := by
  by_cases numeric : a.isNumeric = true ∧ b.isNumeric = true
  · obtain ⟨p, left⟩ := Word.exists_number numeric.1
    obtain ⟨q, right⟩ := Word.exists_number numeric.2
    rw [verdict_of_numbers left right, verdict_of_numbers right left, ← cmp_swap, holds_swap]
  · rw [verdict_of_other numeric, verdict_of_other fun both => numeric both.symm]
    cases x with
    | equal => exact congrArg some BEq.comm
    | unequal => exact congrArg some bne_comm
    | less | greater => rfl

end Comparison

/-! ## Steps -/

namespace Machine

section

variable (m : Machine)

def ArrivesAt (location : Int) : Prop :=
  ∃ next, m.step = (next, none) ∧ next.counter = location

/-- The next step completes and goes on by that many words: by two when it skips a word, and else by one. -/
def GoesOnBy (words : Int) : Prop :=
  m.ArrivesAt (m.counter + words)

/-- The next instruction skips a word if the accumulator `a` compares so with the operand `b`. -/
structure ComparesWords (x : Comparison) (a b : Word) : Prop where
  live : m.status.isTerminal = false
  instruction : ∃ i, m.fetch = .ok i ∧ i.mnemonic = x.skip ∧ m.memory.accumulator i.accumulator = a ∧
    m.operand i = .ok b

/-- The next instruction jumps to the location if the accumulator `a` compares so with zero. -/
structure ComparesWithZero (x : Comparison) (a : Word) (target : Nat) : Prop where
  live : m.status.isTerminal = false
  instruction : ∃ i, m.fetch = .ok i ∧ i.mnemonic = x.jump ∧ m.memory.accumulator i.accumulator = a ∧
    m.effectiveAddress i = .ok target

/-- The next step skips a word or goes on, or faults because there are words of the wrong kind. -/
inductive Decides : Option Bool → Prop where
  | goesOn {taken : Bool} (goes : m.GoesOnBy (if taken then 2 else 1)) : Decides (some taken)
  | faults {next : Machine} {f : Fault} (faults : m.FaultsTo next f) (kind : f.cause.kind = .wordTypeMismatch) :
    Decides none

end

/-- The steps of two machines go on by as many words, or fault for one kind of reason. -/
structure Alike (m k : Machine) : Prop where
  goesOn_iff : ∀ words, m.GoesOnBy words ↔ k.GoesOnBy words
  faults_iff : ∀ kind, (∃ next f, m.FaultsTo next f ∧ f.cause.kind = kind) ↔
    ∃ next f, k.FaultsTo next f ∧ f.cause.kind = kind

section

variable {m k : Machine} {i : Instruction} {x : Comparison} {a b : Word} {target : Nat} {v : Option Bool}

theorem GoesOnBy.iff {words other : Int} (goes : m.GoesOnBy words) : m.GoesOnBy other ↔ other = words := by
  constructor
  · rintro ⟨last, again, there⟩
    obtain ⟨next, completed, here⟩ := goes
    cases completed.symm.trans again
    omega
  · rintro rfl
    exact goes

theorem FaultsTo.not_goesOnBy {next : Machine} {f : Fault} (faults : m.FaultsTo next f) (words : Int) :
    ¬ m.GoesOnBy words :=
  fun ⟨last, completed, _⟩ => faults.incomplete last completed

/-- The verdict is all that a step depends on. -/
theorem Decides.alike (one : m.Decides v) (other : k.Decides v) : m.Alike k := by
  cases one with
  | goesOn goes =>
    cases other with
    | goesOn too =>
      refine ⟨fun words => goes.iff.trans too.iff.symm, fun kind => ⟨?_, ?_⟩⟩
      · rintro ⟨next, f, faults, -⟩
        exact absurd goes (faults.not_goesOnBy _)
      · rintro ⟨next, f, faults, -⟩
        exact absurd too (faults.not_goesOnBy _)
  | faults faults kind =>
    cases other with
    | faults too same =>
      refine ⟨fun words => ?_, faults.kind_iff too (kind.trans same.symm)⟩
      exact ⟨fun goes => absurd goes (faults.not_goesOnBy _), fun goes => absurd goes (too.not_goesOnBy _)⟩

theorem executeSkip_eq (mnemonic : i.mnemonic = x.skip) (operand : m.operand i = .ok b) :
    m.executeSkip i = m.skipIf <$> x.judge (m.memory.accumulator i.accumulator) b := by
  unfold executeSkip
  rw [mnemonic]
  cases x with
  | equal | unequal =>
    simp only [Comparison.skip, operand]
    rfl
  | less | greater =>
    simp only [Comparison.skip, operand, Comparison.judge, bind, Except.bind]
    cases order (m.memory.accumulator i.accumulator) b <;> rfl

/-- What a comparison does is settled by its two words. -/
theorem ComparesWords.decides (compares : m.ComparesWords x a b) : m.Decides (x.verdict a b) := by
  obtain ⟨live, i, fetched, mnemonic, rfl, operand⟩ := compares
  have executed : m.execute i =
      (m.supply, (m.skipIf <$> x.judge (m.memory.accumulator i.accumulator) b).mapError .fault) := by
    have family : i.mnemonic.family = .skip := by
      rw [mnemonic]
      cases x <;> rfl
    simp only [execute, family, executeSkip_eq mnemonic operand]
  rw [Comparison.verdict]
  cases judged : x.judge (m.memory.accumulator i.accumulator) b with
  | ok taken =>
    rw [judged] at executed
    refine .goesOn ⟨_, step_of_completed live fetched executed, ?_⟩
    cases taken <;> rfl
  | error cause =>
    rw [judged] at executed
    obtain ⟨expected, found, rfl⟩ := Comparison.mismatch_of_judge judged
    obtain ⟨next, f, faults, cause⟩ := faultsTo_with_cause m.supply rfl (step_of_faulted live fetched executed)
    exact .faults faults (by rw [cause]; rfl)

theorem ComparesWords.goesOn {taken : Bool} (compares : m.ComparesWords x a b) (verdict : x.verdict a b = some taken) :
    m.GoesOnBy (if taken then 2 else 1) := by
  have decides := compares.decides
  rw [verdict] at decides
  cases decides with
  | goesOn goes => exact goes

theorem ComparesWords.faults (compares : m.ComparesWords x a b) (verdict : x.verdict a b = none) :
    ∃ next f, m.FaultsTo next f ∧ f.cause.kind = .wordTypeMismatch := by
  have decides := compares.decides
  rw [verdict] at decides
  cases decides with
  | faults faults kind => exact ⟨_, _, faults, kind⟩

/-- A jump is taken if the number compares so with zero. -/
theorem ComparesWithZero.arrives {p : Number} (compares : m.ComparesWithZero x a target) (number : a.number = .ok p) :
    m.ArrivesAt (if x.holds (cmp p.toRat 0) then target else m.counter + 1) := by
  obtain ⟨live, i, fetched, mnemonic, rfl, address⟩ := compares
  have compared : p.compare? (.integer 0) = some (cmp p.toRat 0) :=
    Number.compare?_eq_cmp (Word.isFinite_of_number number) trivial
  have jump : ∀ test : Option Ordering → Bool, m.jumpIf i test =
      .ok (if test (some (cmp p.toRat 0)) then { next := target } else m.goOn) := by
    intro test
    simp only [jumpIf, address, numberOf, number, Except.mapError, bind, Except.bind, compared]
    rfl
  have result : m.executeJump i = .ok (if x.holds (cmp p.toRat 0) then { next := target } else m.goOn) := by
    unfold executeJump
    rw [mnemonic]
    cases x <;> exact jump _
  have executed : m.execute i =
      (m.supply, .ok (if x.holds (cmp p.toRat 0) then { next := target } else m.goOn)) := by
    have family : i.mnemonic.family = .jump := by
      rw [mnemonic]
      cases x <;> rfl
    simp only [execute, family, result]
    rfl
  refine ⟨_, step_of_completed live fetched executed, ?_⟩
  cases x.holds (cmp p.toRat 0) <;> rfl

/-! ## Machines for each comparison -/

variable {on exchanged against : Comparison → Machine}

/-- Of the two comparisons for equality one skips. -/
theorem equal_or_unequal (compares : ∀ x, (on x).ComparesWords x a b) :
    (on .equal).GoesOnBy 2 ∧ (on .unequal).GoesOnBy 1 ∨ (on .equal).GoesOnBy 1 ∧ (on .unequal).GoesOnBy 2 := by
  have equal := (compares .equal).goesOn rfl
  have unequal := (compares .unequal).goesOn rfl
  cases same : sameWord a b with
  | true =>
    rw [same] at equal unequal
    exact Or.inl ⟨equal, unequal⟩
  | false =>
    rw [same] at equal unequal
    exact Or.inr ⟨equal, unequal⟩

/-- Of the three comparisons of numbers one skips. -/
theorem one_skips (compares : ∀ x, (on x).ComparesWords x a b) (left : a.isNumeric = true)
    (right : b.isNumeric = true) :
    ∃ x ∈ Comparison.exclusive, (on x).GoesOnBy 2 ∧ ∀ y ∈ Comparison.exclusive, y ≠ x → (on y).GoesOnBy 1 := by
  obtain ⟨p, left⟩ := Word.exists_number left
  obtain ⟨q, right⟩ := Word.exists_number right
  have goes : ∀ x : Comparison, (on x).GoesOnBy (if x.holds (cmp p.toRat q.toRat) then 2 else 1) :=
    fun x => (compares x).goesOn (Comparison.verdict_of_numbers left right x)
  obtain ⟨x, member, holds, others⟩ := Comparison.exists_holds (cmp p.toRat q.toRat)
  refine ⟨x, member, ?_, fun y one different => ?_⟩
  · have skipped := goes x
    rwa [holds] at skipped
  · have passed := goes y
    rwa [others y one different] at passed

/-- Of the three jumps one is taken, and the other two go on. -/
theorem one_jumps (tests : ∀ x, (against x).ComparesWithZero x a target) (numeric : a.isNumeric = true) :
    (∃ x ∈ Comparison.exclusive, (against x).ArrivesAt target ∧
      ∀ y ∈ Comparison.exclusive, y ≠ x → (against y).GoesOnBy 1) ∧
    ((against .equal).ArrivesAt target ∧ (against .unequal).GoesOnBy 1 ∨
      (against .equal).GoesOnBy 1 ∧ (against .unequal).ArrivesAt target) := by
  obtain ⟨p, number⟩ := Word.exists_number numeric
  have taken : ∀ x : Comparison, x.holds (cmp p.toRat 0) = true → (against x).ArrivesAt target := by
    intro x holds
    have arrives := (tests x).arrives number
    rwa [holds] at arrives
  have passed : ∀ x : Comparison, x.holds (cmp p.toRat 0) = false → (against x).GoesOnBy 1 := by
    intro x fails
    have arrives := (tests x).arrives number
    rwa [fails] at arrives
  constructor
  · obtain ⟨x, member, holds, others⟩ := Comparison.exists_holds (cmp p.toRat 0)
    exact ⟨x, member, taken x holds, fun y one different => passed y (others y one different)⟩
  · have unequal := Comparison.holds_unequal (cmp p.toRat 0)
    cases equal : Comparison.equal.holds (cmp p.toRat 0) with
    | true => exact Or.inl ⟨taken _ equal, passed _ (by rw [unequal, equal]; rfl)⟩
    | false => exact Or.inr ⟨passed _ equal, taken _ (by rw [unequal, equal]; rfl)⟩

/-- A comparison does what the other way round does with its operands exchanged. -/
theorem alike_exchanged (compares : ∀ x, (on x).ComparesWords x a b)
    (swaps : ∀ x, (exchanged x).ComparesWords x b a) (x : Comparison) : (on x).Alike (exchanged x.swap) := by
  have decides := (swaps x.swap).decides
  rw [Comparison.verdict_swap] at decides
  exact (compares x).decides.alike decides

/-- The skips and jumps by comparison agree with each other, whatever the words are. -/
theorem comparisons_agree (compares : ∀ x, (on x).ComparesWords x a b)
    (swaps : ∀ x, (exchanged x).ComparesWords x b a) (tests : ∀ x, (against x).ComparesWithZero x a target) :
    ((on .equal).GoesOnBy 2 ∧ (on .unequal).GoesOnBy 1 ∨ (on .equal).GoesOnBy 1 ∧ (on .unequal).GoesOnBy 2) ∧
    (a.isNumeric = true ∧ b.isNumeric = true → ∃ x ∈ Comparison.exclusive, (on x).GoesOnBy 2 ∧
      ∀ y ∈ Comparison.exclusive, y ≠ x → (on y).GoesOnBy 1) ∧
    (¬ (a.isNumeric = true ∧ b.isNumeric = true) → ∀ x ∈ [Comparison.less, .greater],
      ∃ next f, (on x).FaultsTo next f ∧ f.cause.kind = .wordTypeMismatch) ∧
    (∀ x, (on x).Alike (exchanged x.swap)) ∧
    (a.isNumeric = true →
      (∃ x ∈ Comparison.exclusive, (against x).ArrivesAt target ∧
        ∀ y ∈ Comparison.exclusive, y ≠ x → (against y).GoesOnBy 1) ∧
      ((against .equal).ArrivesAt target ∧ (against .unequal).GoesOnBy 1 ∨
        (against .equal).GoesOnBy 1 ∧ (against .unequal).ArrivesAt target)) := by
  refine ⟨equal_or_unequal compares, fun numeric => one_skips compares numeric.1 numeric.2,
    fun other x member => ?_, alike_exchanged compares swaps, one_jumps tests⟩
  refine (compares x).faults ?_
  rw [Comparison.verdict_of_other other]
  obtain rfl | rfl : x = .less ∨ x = .greater := by simpa using member
  · rfl
  · rfl

end

/-- A program of one instruction that compares accumulator 1 with the word in location 9, or jumps there. -/
def comparingMachine (mnemonic : Mnemonic) (a b : Word) : Machine where
  memory := ⟨(((Array.replicate 12 Word.zero).setIfInBounds 1 a).setIfInBounds 8
    (Instruction.encode { Instruction.ofBits 0o00100011 with mnemonic })).setIfInBounds 9 b, Nat.le_of_ble_eq_true rfl⟩
  counter := 8

/-- The sign bit alone stands for a real just below zero, not for zero. -/
theorem comparingMachine_agrees :
    let a : Word := ⟨.real, 0o40000000⟩
    let b : Word := ⟨.integer, 0⟩
    let on := fun x : Comparison => comparingMachine x.skip a b
    let exchanged := fun x : Comparison => comparingMachine x.skip b a
    let against := fun x : Comparison => comparingMachine x.jump a b
    (∀ x, (on x).ComparesWords x a b) ∧ (∀ x, (exchanged x).ComparesWords x b a) ∧
    (∀ x, (against x).ComparesWithZero x a 9) ∧
    (on .less).GoesOnBy 2 ∧ (exchanged .greater).GoesOnBy 2 ∧
    ((on .equal).GoesOnBy 2 ∧ (on .unequal).GoesOnBy 1 ∨ (on .equal).GoesOnBy 1 ∧ (on .unequal).GoesOnBy 2) ∧
    ∃ x ∈ Comparison.exclusive, (against x).ArrivesAt 9 ∧
      ∀ y ∈ Comparison.exclusive, y ≠ x → (against y).GoesOnBy 1 := by
  intro a b on exchanged against
  have compares : ∀ x, (on x).ComparesWords x a b := by
    intro x
    cases x <;> exact ⟨rfl, ⟨_, 1, 0, false, 0, 9⟩, by decide +kernel, rfl, rfl, by decide +kernel⟩
  have swaps : ∀ x, (exchanged x).ComparesWords x b a := by
    intro x
    cases x <;> exact ⟨rfl, ⟨_, 1, 0, false, 0, 9⟩, by decide +kernel, rfl, rfl, by decide +kernel⟩
  have tests : ∀ x, (against x).ComparesWithZero x a 9 := by
    intro x
    cases x <;> exact ⟨rfl, ⟨_, 1, 0, false, 0, 9⟩, by decide +kernel, rfl, rfl, by decide +kernel⟩
  obtain ⟨equality, -, -, alike, jumps⟩ := comparisons_agree compares swaps tests
  have verdict : Comparison.less.verdict a b = some true := by decide +kernel
  have skips : (on .less).GoesOnBy 2 := (compares .less).goesOn verdict
  exact ⟨compares, swaps, tests, skips, ((alike .less).goesOn_iff 2).mp skips, equality, (jumps rfl).1⟩

end Machine

end WordMachine
