import WordMachine.Numeric.Number
import WordMachine.Proofs.Text.Lines
import WordMachine.Proofs.Text.Numeral
import WordMachine.Text.Blank
import WordMachine.Text.Quoted

/-!
# Texts that stay on one line

Numbers in every form, columns and quoted texts hold no character that ends a line, whatever number or text
they show: digits and signs do not end one, and a quoted text escapes what does.
-/
namespace WordMachine.Text

open Numeric

section

variable {c : Char} {cs rest : List Char}

@[simp] theorem unbroken_cons_iff : Unbroken (c :: cs) ↔ endsLine c = false ∧ Unbroken cs :=
  List.forall_mem_cons

@[simp] theorem unbroken_append_iff : Unbroken (cs ++ rest) ↔ Unbroken cs ∧ Unbroken rest :=
  List.forall_mem_append

theorem Unbroken.of_subset (unbroken : Unbroken cs) (within : rest ⊆ cs) : Unbroken rest :=
  fun d member => unbroken d (within member)

theorem unbroken_empty : Unbroken "".toList :=
  nofun

theorem unbroken_replicate (inside : endsLine c = false) (count : Nat) :
    Unbroken (List.replicate count c) := by
  intro d member
  rw [List.eq_of_mem_replicate member]
  exact inside

theorem unbroken_pushn {s : String} (unbroken : Unbroken s.toList) (inside : endsLine c = false)
    (count : Nat) : Unbroken (s.pushn c count).toList := by
  rw [toList_pushn, unbroken_append_iff]
  exact ⟨unbroken, unbroken_replicate inside count⟩

end

/-! ## Numbers -/

theorem endsLine_digitChar {n : Nat} (small : n < 16) : endsLine n.digitChar = false :=
  (by decide : ∀ k < 16, endsLine k.digitChar = false) n small

section

variable {base : Nat} (positive : 0 < base) (small : base ≤ 16)
include positive small

theorem unbroken_toDigitsCore (fuel n : Nat) {digits : List Char} (unbroken : Unbroken digits) :
    Unbroken (Nat.toDigitsCore base fuel n digits) := by
  induction fuel generalizing n digits with
  | zero => exact unbroken
  | succ fuel ih =>
    have digit : n % base < 16 := Nat.lt_of_lt_of_le (Nat.mod_lt n positive) small
    have longer : Unbroken ((n % base).digitChar :: digits) :=
      unbroken_cons_iff.mpr ⟨endsLine_digitChar digit, unbroken⟩
    unfold Nat.toDigitsCore
    dsimp only
    split
    · exact longer
    · exact ih _ longer

theorem unbroken_toDigits (n : Nat) : Unbroken (Nat.toDigits base n) :=
  unbroken_toDigitsCore positive small (n + 1) n unbroken_nil

end

theorem unbroken_toString_nat (n : Nat) : Unbroken (toString n).toList := by
  rw [Nat.toString_eq_repr, Nat.toList_repr]
  exact unbroken_toDigits (by decide) (by decide) n

theorem unbroken_toString_int (n : Int) : Unbroken (toString n).toList := by
  cases n with
  | ofNat n => exact unbroken_toString_nat n
  | negSucc n =>
    have text : toString (Int.negSucc n) = "-" ++ toString (n + 1) := rfl
    rw [text, String.toList_append, unbroken_append_iff]
    exact ⟨by simp [Unbroken, endsLine], unbroken_toString_nat (n + 1)⟩

theorem unbroken_sign (n : Int) : Unbroken (if n < 0 then "-" else "").toList := by
  split <;> simp [Unbroken, endsLine]

theorem unbroken_locationText (n : Int) : Unbroken (locationText n).toList := by
  unfold locationText zeroPadded
  simp only [String.toList_append, unbroken_append_iff]
  exact ⟨⟨unbroken_sign n, unbroken_pushn unbroken_empty rfl _⟩, unbroken_toString_nat _⟩

theorem unbroken_octalPadded (width : Nat) (n : Int) : Unbroken (octalPadded width n).toList := by
  unfold octalPadded
  simp only [String.toList_append, String.toList_ofList, unbroken_append_iff]
  exact ⟨⟨unbroken_sign n, unbroken_pushn unbroken_empty rfl _⟩, unbroken_toDigits (by decide) (by decide) _⟩

/-! ## Reals -/

theorem unbroken_zeros (n : Nat) : Unbroken (DecimalLayout.zeros n).toList :=
  unbroken_pushn unbroken_empty rfl n

theorem unbroken_exponentText (e : Int) : Unbroken (DecimalLayout.exponentText e).toList := by
  have sign : Unbroken (if e < 0 then "e-" else "e+").toList := by
    split <;> simp [Unbroken, endsLine]
  have digits := unbroken_toString_nat e.natAbs
  unfold DecimalLayout.exponentText
  dsimp only
  rw [String.toList_append, unbroken_append_iff]
  refine ⟨sign, ?_⟩
  split
  · rw [String.toList_append, unbroken_append_iff]
    exact ⟨by simp [Unbroken, endsLine], digits⟩
  · exact digits

theorem unbroken_write (layout : DecimalLayout) (d : Decimal) : Unbroken (layout.write d).toList := by
  have digits := unbroken_toString_nat d.digits
  have first (n : Nat) : Unbroken ((toString d.digits).toList.take n) :=
    digits.of_subset (List.take_subset n _)
  have others (n : Nat) : Unbroken ((toString d.digits).toList.drop n) :=
    digits.of_subset (List.drop_subset n _)
  have zeros (n : Nat) := unbroken_zeros n
  have point : Unbroken ".".toList := by simp [Unbroken, endsLine]
  unfold DecimalLayout.write
  dsimp only
  split_ifs <;> simp only [String.toList_append, String.toList_ofList, unbroken_append_iff]
  · exact ⟨⟨by simp [Unbroken, endsLine], zeros _⟩, digits⟩
  · exact ⟨⟨digits, zeros _⟩, by simp [Unbroken, endsLine]⟩
  · exact ⟨⟨digits, zeros _⟩, unbroken_empty⟩
  · exact ⟨⟨first _, point⟩, others _⟩
  · exact ⟨⟨first _, unbroken_empty⟩, unbroken_exponentText _⟩
  · exact ⟨⟨first _, point, others _⟩, unbroken_exponentText _⟩

theorem unbroken_writeWith (layout : DecimalLayout) (positive : Binary64 → Nat → Nat → Decimal)
    (x : Binary64) : Unbroken (x.writeWith layout positive).toList := by
  cases x with
  | nan => simp [Binary64.writeWith, Unbroken, endsLine]
  | infinite negative => cases negative <;> simp [Binary64.writeWith, Unbroken, endsLine]
  | finite negative m e =>
    unfold Binary64.writeWith
    dsimp only
    have magnitude : Unbroken (if m = 0 then (if layout.marksWhole then "0.0" else "0")
        else layout.write (positive (.finite false m e) (m * Binary64.scaleUp e)
          (Binary64.scaleUp (-e)))).toList := by
      split_ifs
      · simp [Unbroken, endsLine]
      · simp [Unbroken, endsLine]
      · exact unbroken_write layout _
    cases negative with
    | false => exact magnitude
    | true =>
      rw [if_pos rfl, String.toList_append, unbroken_append_iff]
      exact ⟨by simp [Unbroken, endsLine], magnitude⟩

/-- The text of a number stays on one line. -/
theorem unbroken_numberText (n : Number) : Unbroken n.text.toList := by
  cases n with
  | integer n => exact unbroken_toString_int n
  | real x =>
    rw [Number.text, Binary64.text]
    exact unbroken_writeWith _ _ x

/-! ## Texts -/

theorem isPrintable_of_endsLine {c : Char} (ends : endsLine c = true) : isPrintable c = false := by
  have hidden : ∀ n ∈ [0x0a, 0x0b, 0x0c, 0x0d, 0x1c, 0x1d, 0x1e, 0x85, 0x2028, 0x2029],
      isPrintable (Char.ofNat n) = false := by decide +kernel
  have listed := hidden c.toNat (by simpa [endsLine] using ends)
  rwa [Char.ofNat_toNat] at listed

theorem unbroken_hexDigits (width n : Nat) : Unbroken (hexDigits width n) := by
  unfold hexDigits
  exact unbroken_append_iff.mpr ⟨unbroken_replicate rfl _, unbroken_toDigits (by decide) (by decide) n⟩

theorem endsLine_quoteFor (cs : List Char) : endsLine (quoteFor cs) = false := by
  unfold quoteFor
  split <;> rfl

/-- What would end a line is not printable, and stands in a quoted text by its code point. -/
theorem unbroken_escape {quote : Char} (inside : endsLine quote = false) (c : Char) :
    Unbroken (escape quote c) := by
  unfold escape
  split
  next kept =>
    have ordinary : endsLine c = false := by
      rcases kept with rfl | rfl
      · exact inside
      · rfl
    simp [ordinary, unbroken_nil, show endsLine '\\' = false from rfl]
  · split_ifs with _ _ _ printable
    · simp [Unbroken, endsLine]
    · simp [Unbroken, endsLine]
    · simp [Unbroken, endsLine]
    · have ordinary : endsLine c = false := by
        cases ends : endsLine c with
        | false => rfl
        | true => rw [isPrintable_of_endsLine ends] at printable; cases printable
      simp [ordinary, unbroken_nil]
    all_goals exact unbroken_cons_iff.mpr ⟨rfl, unbroken_cons_iff.mpr ⟨rfl, unbroken_hexDigits _ _⟩⟩

/-- A quoted text stays on one line, for line ends are not printable. -/
theorem unbroken_quoted (s : String) : Unbroken (quoted s).toList := by
  have edge := endsLine_quoteFor s.toList
  have escaped : Unbroken (s.toList.flatMap (escape (quoteFor s.toList))) := by
    intro d member
    obtain ⟨c, -, within⟩ := List.mem_flatMap.mp member
    exact unbroken_escape edge c d within
  simp [quoted, edge, escaped, unbroken_nil]

theorem unbroken_padEnd {s : String} (unbroken : Unbroken s.toList) (width : Nat) :
    Unbroken (padEnd width s).toList := by
  rw [padEnd, String.toList_append, unbroken_append_iff]
  exact ⟨unbroken, unbroken_pushn unbroken_empty rfl _⟩

theorem unbroken_intercalate {separator : String} {texts : List String}
    (single : Unbroken separator.toList) (unbroken : ∀ t ∈ texts, Unbroken t.toList) :
    Unbroken (separator.intercalate texts).toList := by
  induction texts with
  | nil => exact unbroken_empty
  | cons t rest ih =>
    have first := unbroken t List.mem_cons_self
    cases rest with
    | nil => rwa [String.intercalate_singleton]
    | cons u more =>
      rw [String.intercalate_cons_cons, String.toList_append, String.toList_append, unbroken_append_iff,
        unbroken_append_iff]
      exact ⟨⟨first, single⟩, ih fun v member => unbroken v (List.mem_cons_of_mem t member)⟩

theorem unbroken_trimEnd {s : String} (unbroken : Unbroken s.toList) : Unbroken (trimEnd s).toList := by
  rw [trimEnd, String.toList_ofList, dropBlankEnd]
  refine unbroken.of_subset fun c member => ?_
  have kept := (List.dropWhile_sublist _).mem (List.mem_reverse.mp member)
  exact List.mem_reverse.mp kept

end WordMachine.Text
