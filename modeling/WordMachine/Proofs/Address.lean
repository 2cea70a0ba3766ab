import WordMachine.Address
import WordMachine.Proofs.Assembly.Image
import WordMachine.Proofs.Numeric.Value
import WordMachine.Proofs.Text.Numeral

/-!
# The location that an address names

Page, offset and index register add up to a location, which must lie inside memory. A direct address names it. An
indirect one names what the word there points at, which must lie inside memory too, and no other word is looked at
(`resolve_congr`). `Resolves` has one case for each outcome, and every address has exactly one of them. What a word
points at can always be written, but the value of an index register may be too long.
-/
namespace WordMachine

/-- What a word points at: an integer at the location of its value, an instruction at its page and offset, whatever
its own index register and indirect flag. Other words point nowhere. -/
inductive Word.PointsAt (w : Word) : Int → Prop where
  | integer {value : Int} (holds : w.number = .ok (.integer value)) : PointsAt w value
  | instruction {i : Instruction} (decoded : Instruction.decode w = .ok i) :
    PointsAt w (i.page.val * 1024 + i.offset.val)

theorem Word.PointsAt.natAbs_lt {w : Word} {target : Int} (points : w.PointsAt target) :
    target.natAbs < 10 ^ 100 := by
  cases points with
  | integer holds =>
    obtain ⟨tag, bits⟩ := w
    cases tag with
    | integer =>
      cases holds
      exact Nat.lt_of_le_of_lt (natAbs_le_of_fits (fits_toInt bits)) (by decide)
    | real | text | instruction => cases holds
  | @instruction i decoded =>
    have page := i.page.isLt
    have offset := i.offset.isLt
    omega

namespace Memory

variable {m : Memory} {location : Int}

theorem check_of_outside (beyond : ¬ (0 ≤ location ∧ location < m.size)) (shown : m.shows location = true) :
    m.check location = .error (.outside location m.size) := by
  rw [check, if_neg beyond, if_pos shown]

theorem check_of_unshown (beyond : ¬ (0 ≤ location ∧ location < m.size)) (long : m.shows location = false) :
    m.check location = .error .unwritable := by
  rw [check, if_neg beyond, if_neg (by simp [long])]

theorem exists_check_error (beyond : ¬ (0 ≤ location ∧ location < m.size)) : ∃ e, m.check location = .error e :=
  ⟨_, if_neg beyond⟩

/-- A location of a hundred digits can be written, whatever the memory is. -/
theorem shows_of_natAbs_lt (m : Memory) (small : location.natAbs < 10 ^ 100) : m.shows location = true := by
  simp [shows, Text.isWritable_of_natAbs_lt small]

end Memory

namespace Address

/-- The index register is one of the eight that there are. -/
def Registered (a : Address) : Prop :=
  ∀ n, a.index = some n → 0 ≤ n ∧ n < 8

def sum (a : Address) (registers : Vector Int 8) : Int :=
  a.page * 1024 + a.offset + a.index.elim 0 fun n => registers.toList.getD n.toNat 0

/-- The outcomes of resolving an address whose fields add up to `base`. -/
inductive Resolves (a : Address) (m : Memory) (base : Int) : Except MemoryError Nat → Prop where
  | outside (beyond : ¬ (0 ≤ base ∧ base < m.size)) (shown : m.shows base = true) :
    Resolves a m base (.error (.outside base m.size))
  | unshown (beyond : ¬ (0 ≤ base ∧ base < m.size)) (long : m.shows base = false) :
    Resolves a m base (.error .unwritable)
  | direct {location : Nat} (here : base = location) (inside : location < m.size) (plain : a.indirect = false) :
    Resolves a m base (.ok location)
  | followed {pointer target : Nat} (here : base = pointer) (inside : pointer < m.size) (indirect : a.indirect = true)
      (points : (m.get pointer).PointsAt target) (there : target < m.size) : Resolves a m base (.ok target)
  | astray {pointer : Nat} {target : Int} (here : base = pointer) (inside : pointer < m.size)
      (indirect : a.indirect = true) (points : (m.get pointer).PointsAt target)
      (beyond : ¬ (0 ≤ target ∧ target < m.size)) : Resolves a m base (.error (.outside target m.size))
  | pointless {pointer : Nat} (here : base = pointer) (inside : pointer < m.size) (indirect : a.indirect = true)
      (nowhere : ∀ target, ¬ (m.get pointer).PointsAt target) :
    Resolves a m base (.error (.notAnAddress pointer m.size (m.get pointer).tag.describe))

section

variable {a : Address} {m : Memory} {registers : Vector Int 8}

theorem registered_ofInstruction (i : Instruction) : (ofInstruction i).Registered := by
  intro n indexed
  obtain ⟨k, -, rfl⟩ := Option.map_eq_some_iff.mp indexed
  have bound := k.isLt
  omega

/-- An index register that exists has a value, so the location before any indirection always comes out. -/
theorem base_eq_sum (registered : a.Registered) : a.base registers.toList = .ok (a.sum registers) := by
  unfold base sum
  cases indexed : a.index with
  | none => simp [pageSize, pure, Except.pure]
  | some n =>
    obtain ⟨k, rfl⟩ := Int.eq_ofNat_of_zero_le (registered n indexed).1
    have known : k < registers.toList.length := by
      have bound := (registered k indexed).2
      rw [Vector.length_toList]
      omega
    have value : indexValue registers.toList k = .ok (registers.toList.getD k 0) := by
      show (registers.toList[k]?).elim _ _ = _
      rw [List.getD_eq_getElem?_getD, List.getElem?_eq_getElem known]
      rfl
    simp [value, pageSize, bind, Except.bind, pure, Except.pure]

theorem follow_eq_ok_iff {location : Nat} {target : Int} :
    follow m location = .ok target ↔ (m.get location).PointsAt target := by
  unfold follow
  dsimp only
  cases here : m.get location with
  | mk tag bits =>
    constructor
    · intro followed
      cases tag with
      | integer =>
        cases followed
        exact .integer rfl
      | instruction =>
        cases followed
        exact .instruction rfl
      | real | text => cases followed
    · rintro (holds | decoded)
      · cases tag with
        | integer =>
          cases holds
          rfl
        | real | text | instruction => cases holds
      · cases tag with
        | instruction =>
          cases decoded
          rfl
        | integer | real | text => cases decoded

theorem follow_of_nowhere {location : Nat} (nowhere : ∀ target, ¬ (m.get location).PointsAt target) :
    follow m location = .error (.notAnAddress location m.size (m.get location).tag.describe) := by
  have unfollowed : ∀ target, follow m location ≠ .ok target := fun target followed =>
    nowhere target (follow_eq_ok_iff.mp followed)
  unfold follow at unfollowed ⊢
  dsimp only at unfollowed ⊢
  cases tag : (m.get location).tag with
  | instruction | integer => simp [tag] at unfollowed
  | real | text => rfl

/-! ## Resolving -/

/-- An address that is refused before any indirection is refused for its base. -/
theorem resolve_of_refused (registered : a.Registered) {e : MemoryError}
    (refused : m.check (a.sum registers) = .error e) : a.resolve m registers.toList = .error e := by
  rw [resolve, base_eq_sum registered]
  show (m.check (a.sum registers) >>= _) = _
  rw [refused]
  rfl

/-- Inside memory, only an indirect address looks at a word. -/
theorem resolve_of_inside (registered : a.Registered) {location : Nat} (here : a.sum registers = location)
    (inside : location < m.size) :
    a.resolve m registers.toList =
      if a.indirect then follow m location >>= fun target => m.check target else .ok location := by
  have found : m.check (a.sum registers) = .ok location := Memory.check_eq_ok_iff.mpr ⟨here, inside⟩
  rw [resolve, base_eq_sum registered]
  show (m.check (a.sum registers) >>= _) = _
  rw [found]
  rfl

/-- Every address has one of the outcomes. -/
theorem resolves_resolve (registered : a.Registered) :
    a.Resolves m (a.sum registers) (a.resolve m registers.toList) := by
  by_cases bounds : 0 ≤ a.sum registers ∧ a.sum registers < m.size
  · obtain ⟨location, here⟩ := Int.eq_ofNat_of_zero_le bounds.1
    have inside : location < m.size := by omega
    rw [resolve_of_inside registered here inside]
    cases indirect : a.indirect with
    | false => exact .direct here inside indirect
    | true =>
      by_cases points : ∃ target, (m.get location).PointsAt target
      · obtain ⟨target, points⟩ := points
        rw [follow_eq_ok_iff.mpr points]
        by_cases there : 0 ≤ target ∧ target < m.size
        · obtain ⟨k, rfl⟩ := Int.eq_ofNat_of_zero_le there.1
          have found : m.check (k : Int) = .ok k := Memory.check_eq_ok_iff.mpr ⟨rfl, by omega⟩
          show a.Resolves m (a.sum registers) (m.check k)
          rw [found]
          exact .followed here inside indirect points (by omega)
        · show a.Resolves m (a.sum registers) (m.check target)
          rw [Memory.check_of_outside there (m.shows_of_natAbs_lt points.natAbs_lt)]
          exact .astray here inside indirect points there
      · have nowhere : ∀ target, ¬ (m.get location).PointsAt target := fun target found => points ⟨target, found⟩
        rw [follow_of_nowhere nowhere]
        exact .pointless here inside indirect nowhere
  · cases shown : m.shows (a.sum registers) with
    | true =>
      rw [resolve_of_refused registered (Memory.check_of_outside bounds shown)]
      exact .outside bounds shown
    | false =>
      rw [resolve_of_refused registered (Memory.check_of_unshown bounds shown)]
      exact .unshown bounds shown

/-- No address has two of them. -/
theorem resolve_of_resolves (registered : a.Registered) {result : Except MemoryError Nat}
    (resolves : a.Resolves m (a.sum registers) result) : a.resolve m registers.toList = result := by
  cases resolves with
  | outside beyond shown => exact resolve_of_refused registered (Memory.check_of_outside beyond shown)
  | unshown beyond long => exact resolve_of_refused registered (Memory.check_of_unshown beyond long)
  | direct here inside plain =>
    rw [resolve_of_inside registered here inside, plain]
    rfl
  | followed here inside indirect points there =>
    rw [resolve_of_inside registered here inside, indirect, follow_eq_ok_iff.mpr points]
    exact Memory.check_eq_ok_iff.mpr ⟨rfl, there⟩
  | astray here inside indirect points beyond =>
    rw [resolve_of_inside registered here inside, indirect, follow_eq_ok_iff.mpr points]
    exact Memory.check_of_outside beyond (m.shows_of_natAbs_lt points.natAbs_lt)
  | pointless here inside indirect nowhere =>
    rw [resolve_of_inside registered here inside, indirect, follow_of_nowhere nowhere]
    rfl

/-- An outcome is the same in every memory of the same size that has the same word at the one location that an
indirect address is looked up in. -/
theorem Resolves.congr {other : Memory} {base : Int} {result : Except MemoryError Nat}
    (resolves : a.Resolves m base result) (size : other.size = m.size)
    (word : a.indirect = true → ∀ pointer : Nat, base = pointer → pointer < m.size → other.get pointer = m.get pointer) :
    a.Resolves other base result := by
  have same (location : Int) : other.shows location = m.shows location := by rw [Memory.shows, Memory.shows, size]
  cases resolves with
  | outside beyond shown => exact size ▸ .outside (size ▸ beyond) ((same base).trans shown)
  | unshown beyond long => exact .unshown (size ▸ beyond) ((same base).trans long)
  | direct here inside plain => exact .direct here (size ▸ inside) plain
  | followed here inside indirect points there =>
    exact .followed here (size ▸ inside) indirect (word indirect _ here inside ▸ points) (size ▸ there)
  | astray here inside indirect points beyond =>
    exact size ▸ .astray here (size ▸ inside) indirect (word indirect _ here inside ▸ points) (size ▸ beyond)
  | @pointless pointer here inside indirect nowhere =>
    have same := word indirect _ here inside
    rw [← size, ← same]
    exact .pointless here (size ▸ inside) indirect (same ▸ nowhere)

/-- Resolving an address looks at the size of the memory and at no more than one word of it. -/
theorem resolve_congr {other : Memory} (registered : a.Registered) (size : other.size = m.size)
    (word : a.indirect = true →
      ∀ pointer : Nat, a.sum registers = pointer → pointer < m.size → other.get pointer = m.get pointer) :
    a.resolve other registers.toList = a.resolve m registers.toList :=
  resolve_of_resolves registered ((resolves_resolve registered).congr size word)

/-- What an address names, in every memory and for every value of the index registers. -/
theorem resolves_by_one_word (a : Address) (m : Memory) (registers : Vector Int 8) (registered : a.Registered) :
    (∀ result, a.resolve m registers.toList = result ↔ a.Resolves m (a.sum registers) result) ∧
    (∀ location, a.resolve m registers.toList = .ok location → location < m.size) ∧
    (∀ other : Memory, other.size = m.size → other.read (a.sum registers) = m.read (a.sum registers) →
      a.resolve other registers.toList = a.resolve m registers.toList) := by
  refine ⟨fun result => ?_, fun location named => ?_, fun other size word => ?_⟩
  · constructor
    · rintro rfl
      exact resolves_resolve registered
    · exact resolve_of_resolves registered
  · have resolves : a.Resolves m (a.sum registers) (.ok location) := named ▸ resolves_resolve registered
    cases resolves with
    | direct here inside => exact inside
    | followed here inside indirect points there => exact there
  · refine resolve_congr registered size fun _ pointer here inside => ?_
    rw [Memory.read_eq (by omega), Memory.read_eq (by omega), here] at word
    exact Except.ok.inj word

end

/-- Through index register 3 to the word at location 9, an instruction that has location 12, an index register of its
own and an indirect flag. -/
def pointing : Address where
  offset := 15
  index := some 3
  indirect := true

def pointedMemory : Memory where
  words := (Array.replicate 16 Word.zero).set 9 ⟨.instruction, 0o10014014⟩
  holds_accumulators := by decide

/-- The address is followed once: the instruction at location 9 has location 12, and its own index register and
indirect flag do not count. -/
theorem pointing_resolves :
    pointing.Registered ∧
    pointing.resolve pointedMemory (#v[0, 0, 0, -6, 0, 0, 0, 0] : Vector Int 8).toList = .ok 12 ∧
    pointing.Resolves pointedMemory (pointing.sum #v[0, 0, 0, -6, 0, 0, 0, 0]) (.ok 12) := by
  have registered : pointing.Registered := by
    rintro n ⟨⟩
    decide
  have named : pointing.resolve pointedMemory (#v[0, 0, 0, -6, 0, 0, 0, 0] : Vector Int 8).toList = .ok 12 := by
    decide +kernel
  exact ⟨registered, named, ((resolves_by_one_word pointing pointedMemory _ registered).1 _).mp named⟩

/-- Through index register 1 far out of memory, to a location with one digit too many to be written. -/
def distant : Address where
  offset := 0
  index := some 1

/-- The location is outside memory, and it is not said which one it is. -/
theorem distant_unnamed :
    let registers : Vector Int 8 := #v[0, Text.overlong, 0, 0, 0, 0, 0, 0]
    distant.Registered ∧ distant.sum registers = Text.overlong ∧ pointedMemory.size = 16 ∧
    distant.resolve pointedMemory registers.toList = .error .unwritable := by
  have registered : distant.Registered := by
    rintro n ⟨⟩
    decide
  have sum : distant.sum #v[0, (Text.overlong : Int), 0, 0, 0, 0, 0, 0] = Text.overlong := by
    simp [Address.sum, distant]
  have beyond {n : Nat} (small : n < 10 ^ 100) : ¬ Text.overlong ≤ n := Nat.not_le_of_lt (Text.lt_overlong small)
  have far : ¬ (0 ≤ (Text.overlong : Int) ∧ (Text.overlong : Int) < pointedMemory.size) := fun inside =>
    beyond (n := 16) (by decide) (Int.ofNat_le.mp inside.2.le)
  have long : pointedMemory.shows Text.overlong = false := by
    rw [Memory.shows, Text.isWritable_overlong, Bool.false_or]
    exact decide_eq_false (beyond (n := 32) (by decide))
  refine ⟨registered, sum, rfl, resolve_of_refused registered ?_⟩
  rw [sum]
  exact Memory.check_of_unshown far long

end Address

end WordMachine
