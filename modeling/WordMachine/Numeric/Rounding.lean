/-!
Rounding a quotient of natural numbers to the nearest natural number, and the number of decimal
digits of one. Every other rounding of the library is `roundDiv` at some scale.
-/
namespace WordMachine.Numeric

/-- The natural number nearest to `num / den`; a quotient half way between two goes to the even one. -/
def roundDiv (num den : Nat) : Nat :=
  let q := num / den
  let r := num % den
  if 2 * r < den then q
  else if den < 2 * r then q + 1
  else q + q % 2

def digitCount (n : Nat) : Nat :=
  (Nat.toDigits 10 n).length

theorem roundDiv_of_dvd {num den : Nat} (hden : 0 < den) (h : num % den = 0) :
    roundDiv num den = num / den := by
  simp [roundDiv, h, hden]

/-- The rounded quotient is at most half a unit above the exact one. -/
theorem two_mul_roundDiv_mul_le (num : Nat) {den : Nat} (hden : 0 < den) :
    2 * (roundDiv num den * den) ≤ 2 * num + den := by
  have hsplit := Nat.div_add_mod num den
  have hr := Nat.mod_lt num hden
  have hcomm : num / den * den = den * (num / den) := Nat.mul_comm _ _
  have hpar : num / den % 2 = 0 ∨ num / den % 2 = 1 := by omega
  unfold roundDiv
  simp only
  split
  · omega
  · split
    · rw [Nat.add_mul]; omega
    · rcases hpar with h | h <;> rw [h, Nat.add_mul] <;> omega

/-- The rounded quotient is at most half a unit below the exact one. -/
theorem two_mul_le_roundDiv_mul_add (num : Nat) {den : Nat} (hden : 0 < den) :
    2 * num ≤ 2 * (roundDiv num den * den) + den := by
  have hsplit := Nat.div_add_mod num den
  have hr := Nat.mod_lt num hden
  have hcomm : num / den * den = den * (num / den) := Nat.mul_comm _ _
  have hpar : num / den % 2 = 0 ∨ num / den % 2 = 1 := by omega
  unfold roundDiv
  simp only
  split
  · omega
  · split
    · rw [Nat.add_mul]; omega
    · rcases hpar with h | h <;> rw [h, Nat.add_mul] <;> omega

end WordMachine.Numeric
