import Mathlib
import WordMachine.Text.Digit
import WordMachine.Text.Padded

/-!
# Numbers written and read

Decimal digits of ASCII are read as the number that they write, with zeros before them or without. So a
number comes back from its own text and from the text of a location, and the bits of a word from their eight octal
digits. Digits of any kind are read as the number that they write in decimal notation, and refused for a digit without
a value, or as an integer for their number, and for nothing else.
-/
namespace WordMachine.Text

/-- The characters are decimal digits of ASCII that write a number, and no more of them than are read. -/
structure Writes (cs : List Char) (n : Nat) : Prop where
  nonempty : cs ≠ []
  digits : ∀ c ∈ cs, c.isDigit = true
  short : cs.length ≤ maxDigits
  value : Nat.ofDigitChars 10 cs 0 = n

theorem decimalValue?_of_isDigit {c : Char} (digit : c.isDigit = true) :
    decimalValue? c = some (c.toNat - '0'.toNat) := by
  have range : '0' ≤ c ∧ c ≤ '9' := by simpa [Char.isDigit, Char.le_def] using digit
  have ascii : c.toNat < 0x80 := by
    have high : c.toNat ≤ '9'.toNat := range.2
    exact Nat.lt_of_le_of_lt high (by decide)
  rw [decimalValue?, if_pos ascii, if_pos range]

theorem isDigit_of_isDigit {c : Char} (digit : c.isDigit = true) : isDigit c = true :=
  isDigit_of_decimalValue (decimalValue?_of_isDigit digit)

/-- Letters of ASCII are no digits of any script. -/
theorem isDigit_of_isAlpha {c : Char} (letter : c.isAlpha = true) : isDigit c = false := by
  have letters : ∀ n < 26, isDigit (Char.ofNat (65 + n)) = false ∧ isDigit (Char.ofNat (97 + n)) = false := by
    decide
  have range : 65 ≤ c.toNat ∧ c.toNat ≤ 90 ∨ 97 ≤ c.toNat ∧ c.toNat ≤ 122 := by
    simpa [Char.isAlpha, Char.isUpper, Char.isLower, UInt32.le_iff_toNat_le] using letter
  rcases range with capital | small
  · have none := (letters (c.toNat - 65) (by omega)).1
    rwa [Nat.add_sub_cancel' capital.1, Char.ofNat_toNat] at none
  · have none := (letters (c.toNat - 97) (by omega)).2
    rwa [Nat.add_sub_cancel' small.1, Char.ofNat_toNat] at none

theorem foldl_digits {cs : List Char} (digits : ∀ c ∈ cs, c.isDigit = true) (start : Nat) :
    cs.foldl (fun n? c => do return (← n?) * 10 + (← decimalValue? c)) (some start) =
      some (Nat.ofDigitChars 10 cs start) := by
  induction cs generalizing start with
  | nil => rfl
  | cons c rest ih =>
    rw [List.foldl_cons, decimalValue?_of_isDigit (digits c (by simp)), Nat.ofDigitChars_cons,
      Nat.mul_comm 10 start]
    exact ih (fun d member => digits d (by simp [member])) _

theorem toList_pushn (s : String) (c : Char) (count : Nat) :
    (s.pushn c count).toList = s.toList ++ List.replicate count c := by
  rw [String.pushn_eq_repeat_push]
  induction count with
  | zero => simp [Nat.repeat]
  | succ count ih => simp [Nat.repeat, ih, List.replicate_succ']

theorem toList_locationText (n : Nat) : (locationText n).toList =
    List.replicate (4 - (toString n).length) '0' ++ (toString n).toList := by
  have sign : ¬ ((n : Int) < 0) := by omega
  simp [locationText, zeroPadded, sign, toList_pushn]

/-- Integers far below the limit on digits can be written. -/
theorem isWritable_of_natAbs_lt {n : Int} (small : n.natAbs < 10 ^ 100) : isWritable n = true := by
  have larger : 10 ^ 100 ≤ 10 ^ maxDigits := Nat.pow_le_pow_right (by decide) (by decide)
  simpa [isWritable] using Nat.lt_of_lt_of_le small larger

theorem isWritable_of_lt {n : Nat} (small : n < 10 ^ 4) : isWritable n = true :=
  isWritable_of_natAbs_lt (Nat.lt_trans small (by decide))

@[simp] theorem isWritable_zero : isWritable 0 = true :=
  isWritable_of_lt (n := 0) (by decide)

/-- No number is too long that is nearer to zero than one that is not. -/
theorem isWritable_of_natAbs_le {m n : Int} (le : m.natAbs ≤ n.natAbs) (written : isWritable n = true) :
    isWritable m = true :=
  decide_eq_true (Nat.lt_of_le_of_lt le (of_decide_eq_true written))

/-- Between two numbers that can be written there are no others. -/
theorem isWritable_of_between {low high n : Int} (above : low ≤ n) (below : n ≤ high)
    (lowWritten : isWritable low = true) (highWritten : isWritable high = true) : isWritable n = true := by
  rcases Int.le_total 0 n with positive | negative
  · exact isWritable_of_natAbs_le (by omega) highWritten
  · exact isWritable_of_natAbs_le (by omega) lowWritten

/-- The least positive number that is too long to be written. -/
@[irreducible] def overlong : Nat := 10 ^ maxDigits

theorem isWritable_overlong : isWritable overlong = false := by
  unfold isWritable overlong
  exact decide_eq_false (Nat.lt_irrefl _)

/-- A number of a hundred digits is not too long. -/
theorem lt_overlong {n : Nat} (small : n < 10 ^ 100) : n < overlong := by
  unfold overlong
  exact Nat.lt_of_lt_of_le small (Nat.pow_le_pow_right (by decide) (by decide))

theorem length_toDigits_le {n : Nat} (small : n < 10 ^ 4) : (Nat.toDigits 10 n).length ≤ 4 :=
  (Nat.length_toDigits_le_iff (by decide) (by decide)).mpr small

namespace Writes

variable {cs : List Char} {n : Nat}

/-- What writes a number is read as that number. -/
theorem readNumeral (writes : Writes cs n) : Text.readNumeral cs = .ok n := by
  have whole : cs.takeWhile (fun c => (decimalValue? c).isSome) = cs := by
    rw [List.takeWhile_eq_self_iff]
    exact fun c member => by rw [decimalValue?_of_isDigit (writes.digits c member)]; rfl
  have read : natOfDigits? cs = some n := (foldl_digits writes.digits 0).trans (congrArg some writes.value)
  have fits := writes.short
  unfold Text.readNumeral
  rw [whole, if_neg (by omega), read]

/-- Zeros before a number change nothing. -/
theorem zeros (writes : Writes cs n) (count : Nat) (fits : count + cs.length ≤ maxDigits) :
    Writes (List.replicate count '0' ++ cs) n where
  nonempty := by simp [writes.nonempty]
  digits c member := by
    rcases List.mem_append.mp member with zero | rest
    · rw [List.eq_of_mem_replicate zero]
      rfl
    · exact writes.digits c rest
  short := by simpa using fits
  value := by
    rw [Nat.ofDigitChars_append, Nat.ofDigitChars_replicate_zero, Nat.mul_zero]
    exact writes.value

/-- A number that is not too long is written by its own text. -/
theorem toString_of_isWritable {n : Nat} (writable : isWritable n = true) :
    Writes (ToString.toString n).toList n := by
  have small : n < 10 ^ maxDigits := by simpa [isWritable] using writable
  rw [Nat.toString_eq_repr, Nat.toList_repr]
  refine ⟨List.ne_nil_of_length_pos Nat.length_toDigits_pos, ?_, ?_, Nat.ofDigitChars_ten_toDigits⟩
  · exact fun c member => Nat.isDigit_of_mem_toDigits (by decide) (by decide) member
  · exact (Nat.length_toDigits_le_iff (by decide) (by decide)).mpr small

theorem toString {n : Nat} (small : n < 10 ^ 4) : Writes (ToString.toString n).toList n :=
  toString_of_isWritable (isWritable_of_lt small)

/-- A location is written by its text of four digits. -/
theorem locationText {n : Nat} (small : n < 10 ^ 4) : Writes (Text.locationText n).toList n := by
  have four := length_toDigits_le small
  rw [toList_locationText]
  refine (toString small).zeros _ ?_
  rw [Nat.toString_eq_repr, Nat.toList_repr]
  unfold maxDigits
  omega

end Writes

/-! ## Octal digits -/

theorem exists_digitChar_of_mem_toDigits {base n : Nat} (large : 1 < base) {c : Char}
    (member : c ∈ Nat.toDigits base n) : ∃ digit < base, c = digit.digitChar := by
  induction n using Nat.strongRecOn with
  | _ n ih =>
    rw [Nat.toDigits_eq_if large] at member
    split at member
    next small => exact ⟨n, small, List.mem_singleton.mp member⟩
    next high =>
      rcases List.mem_append.mp member with before | last
      · exact ih (n / base) (Nat.div_lt_self (by omega) large) before
      · exact ⟨n % base, Nat.mod_lt n (by omega), List.mem_singleton.mp last⟩

/-- The octal digits of a number, filled with zeros to eight of them. -/
structure OctalDigits (cs : List Char) (n : Nat) : Prop where
  length : cs.length = 8
  digits : ∀ c ∈ cs, '0' ≤ c ∧ c ≤ '7'
  value : cs.foldl (fun n c => n * 8 + (c.toNat - '0'.toNat)) 0 = n

theorem octalDigits_octalPadded {n : Nat} (small : n < 8 ^ 8) : OctalDigits (octalPadded 8 n).toList n := by
  have whole : (octalPadded 8 n).toList =
      List.replicate (8 - (Nat.toDigits 8 n).length) '0' ++ Nat.toDigits 8 n := by
    have sign : ¬ ((n : Int) < 0) := by omega
    simp [octalPadded, sign, toList_pushn]
  have length := (Nat.length_toDigits_le_iff (by decide) (by decide)).mpr small
  rw [whole]
  constructor
  case length =>
    rw [List.length_append, List.length_replicate]
    omega
  case digits =>
    have each : ∀ digit < 8, '0' ≤ digit.digitChar ∧ digit.digitChar ≤ '7' := by decide
    intro c member
    rcases List.mem_append.mp member with zero | own
    · rw [List.eq_of_mem_replicate zero]
      decide
    · obtain ⟨digit, low, rfl⟩ := exists_digitChar_of_mem_toDigits (by decide) own
      exact each digit low
  case value =>
    have swapped : (fun (n : Nat) (c : Char) => n * 8 + (c.toNat - '0'.toNat)) =
        fun n c => 8 * n + (c.toNat - '0'.toNat) := by
      funext n c
      rw [Nat.mul_comm]
    rw [swapped, ← Nat.ofDigitChars_eq_foldl, Nat.ofDigitChars_append, Nat.ofDigitChars_replicate_zero, Nat.mul_zero]
    exact Nat.ofDigitChars_toDigits (by decide) (by decide)

/-! ## Digits that are not read -/

theorem foldl_digits_none (cs : List Char) :
    cs.foldl (fun n? c => do return (← n?) * 10 + (← decimalValue? c)) (none : Option Nat) = none := by
  induction cs with
  | nil => rfl
  | cons c rest ih => exact ih

/-- Digits write no number if one of them has no value. -/
theorem natOfDigits?_eq_none_iff {cs : List Char} :
    natOfDigits? cs = none ↔ ∃ c ∈ cs, decimalValue? c = none := by
  suffices ∀ start, cs.foldl (fun n? c => do return (← n?) * 10 + (← decimalValue? c)) (some start) = none ↔
      ∃ c ∈ cs, decimalValue? c = none from this 0
  induction cs with
  | nil => simp
  | cons c rest ih =>
    intro start
    rw [List.foldl_cons]
    cases value : decimalValue? c with
    | none => exact iff_of_true (foldl_digits_none rest) ⟨c, by simp, value⟩
    | some digit =>
      refine (ih (start * 10 + digit)).trans ?_
      simp [value]

/-- Digits are not read as an integer if one of them has no value, or if there are too many. -/
theorem exists_readNumeral_error_iff {cs : List Char} :
    (∃ e, Text.readNumeral cs = .error e) ↔ (∃ c ∈ cs, decimalValue? c = none) ∨ maxDigits < cs.length := by
  have valued := List.takeWhile_eq_self_iff (p := fun c => (decimalValue? c).isSome) (l := cs)
  have shorter := (List.takeWhile_prefix (l := cs) fun c => (decimalValue? c).isSome).length_le
  rw [← natOfDigits?_eq_none_iff]
  unfold Text.readNumeral
  dsimp only
  split
  next long => exact iff_of_true ⟨_, rfl⟩ (Or.inr (by omega))
  next fits =>
    cases read : natOfDigits? cs with
    | none => simp
    | some n =>
      have all : ∀ c ∈ cs, (decimalValue? c).isSome = true := by
        intro c member
        by_contra valueless
        have unread := natOfDigits?_eq_none_iff.mpr ⟨c, member, by simpa using valueless⟩
        rw [unread] at read
        cases read
      rw [valued.mpr all] at fits
      simpa using fits

/-- Every digit of the text has a value, and no run of them is too long for an integer. -/
structure DigitsReadable (cs : List Char) : Prop where
  valued : ∀ c ∈ cs, isDigit c = true → decimalValue? c ≠ none
  short : ∀ run, run <:+: cs → (∀ c ∈ run, isDigit c = true) → run.length ≤ maxDigits

theorem DigitsReadable.of_infix {cs part : List Char} (readable : DigitsReadable cs) (inside : part <:+: cs) :
    DigitsReadable part :=
  ⟨fun c member => readable.valued c (inside.subset member),
    fun run found => readable.short run (found.trans inside)⟩

/-! ## Digits that are read -/

/-- The characters are decimal digits, of one script or of several, that write a number, however many they are. -/
def Denotes (cs : List Char) (n : Nat) : Prop :=
  ∃ digits : List Nat, cs.map decimalValue? = digits.map some ∧ Nat.ofDigits 10 digits.reverse = n

/-- Digits are read as the number that they write. -/
theorem natOfDigits?_eq_some_iff {cs : List Char} {n : Nat} : natOfDigits? cs = some n ↔ Denotes cs n := by
  suffices ∀ start, cs.foldl (fun n? c => do return (← n?) * 10 + (← decimalValue? c)) (some start) = some n ↔
      ∃ digits : List Nat, cs.map decimalValue? = digits.map some ∧
        10 ^ digits.length * start + Nat.ofDigits 10 digits.reverse = n by
    simpa [Denotes, natOfDigits?] using this 0
  induction cs with
  | nil => simp
  | cons c rest ih =>
    intro start
    rw [List.foldl_cons]
    cases value : decimalValue? c with
    | none =>
      refine iff_of_false (fun read => ?_) ?_
      · cases (foldl_digits_none rest).symm.trans read
      · rintro ⟨_ | ⟨digit, digits⟩, same, -⟩ <;> simp [value] at same
    | some digit =>
      have next (digits : List Nat) : 10 ^ digits.length * (start * 10 + digit) + Nat.ofDigits 10 digits.reverse =
          10 ^ (digit :: digits).length * start + Nat.ofDigits 10 (digit :: digits).reverse := by
        simp only [List.length_cons, List.reverse_cons, Nat.ofDigits_append, List.length_reverse, Nat.ofDigits_singleton]
        ring
      refine (ih (start * 10 + digit)).trans ⟨?_, ?_⟩
      · rintro ⟨digits, same, total⟩
        exact ⟨digit :: digits, by simp [value, same], (next digits).symm.trans total⟩
      · rintro ⟨_ | ⟨first, digits⟩, same, total⟩
        · cases same
        · simp only [List.map_cons, value, List.cons.injEq, Option.some.injEq] at same
          obtain ⟨rfl, same⟩ := same
          exact ⟨digits, same, (next digits).trans total⟩

/-- Digits are read as the number that they write, if there are not too many. -/
theorem readNumeral_eq_ok_iff {cs : List Char} {n : Nat} :
    readNumeral cs = .ok n ↔ Denotes cs n ∧ cs.length ≤ maxDigits := by
  constructor
  · intro read
    have short : cs.length ≤ maxDigits := by
      by_contra long
      obtain ⟨e, refused⟩ := exists_readNumeral_error_iff.mpr (.inr (Nat.lt_of_not_le long))
      cases refused.symm.trans read
    unfold readNumeral at read
    dsimp only at read
    split at read
    · cases read
    · split at read
      next value =>
        cases read
        exact ⟨natOfDigits?_eq_some_iff.mp value, short⟩
      · cases read
  · rintro ⟨denoted, short⟩
    have shorter := (List.takeWhile_prefix (l := cs) fun c => (decimalValue? c).isSome).length_le
    rw [readNumeral, if_neg (by omega), natOfDigits?_eq_some_iff.mpr denoted]

theorem decimalValue?_lt {c : Char} {digit : Nat} (value : decimalValue? c = some digit) : digit < 10 := by
  unfold decimalValue? at value
  split at value
  · split at value
    next range =>
      cases value
      have high : c.toNat ≤ '9'.toNat := range.2
      have nine : '9'.toNat < '0'.toNat + 10 := by decide
      omega
    · cases value
  · obtain ⟨first, found, rfl⟩ := Option.map_eq_some_iff.mp value
    have block := List.find?_some found
    simp only [Bool.and_eq_true, decide_eq_true_eq] at block
    omega

/-- A number that was read can be written. -/
theorem isWritable_of_readNumeral {cs : List Char} {n : Nat} (read : readNumeral cs = .ok n) :
    isWritable n = true := by
  obtain ⟨⟨digits, same, rfl⟩, short⟩ := readNumeral_eq_ok_iff.mp read
  have each : ∀ digit ∈ digits.reverse, digit < 10 := by
    intro digit member
    have valued : some digit ∈ cs.map decimalValue? := same ▸ List.mem_map_of_mem (List.mem_reverse.mp member)
    obtain ⟨c, -, value⟩ := List.mem_map.mp valued
    exact decimalValue?_lt value
  have length : digits.reverse.length = cs.length := by
    simpa using (congrArg List.length same).symm
  have below : Nat.ofDigits 10 digits.reverse < 10 ^ maxDigits :=
    (Nat.ofDigits_lt_base_pow_length (by decide) each).trans_le
      (Nat.pow_le_pow_right (by decide) (length.trans_le short))
  simpa [isWritable] using below

theorem Denotes.isDigit {cs : List Char} {n : Nat} (denotes : Denotes cs n) : ∀ c ∈ cs, isDigit c = true := by
  obtain ⟨digits, same, -⟩ := denotes
  intro c member
  have valued : decimalValue? c ∈ digits.map some := same ▸ List.mem_map_of_mem member
  obtain ⟨digit, -, value⟩ := List.mem_map.mp valued
  exact isDigit_of_decimalValue value.symm

/-- Digits write one number at most. -/
theorem Denotes.unique {cs : List Char} {n m : Nat} (denotes : Denotes cs n) (also : Denotes cs m) : n = m :=
  Option.some.inj ((natOfDigits?_eq_some_iff.mpr denotes).symm.trans (natOfDigits?_eq_some_iff.mpr also))

end WordMachine.Text
