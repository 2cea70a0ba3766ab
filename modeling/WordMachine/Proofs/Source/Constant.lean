import WordMachine.Proofs.Numeric.Value
import WordMachine.Proofs.Results
import WordMachine.Source.Line

/-!
# Constants and their keys

Two constants share a slot of the literal table when they have one key: the kind of the constant and its
value, a real being read as a rational. On constants that words can hold this is what `Constant.same`
decides, and constants of one key have one word.
-/
namespace WordMachine.Source

open Numeric

/-- Kind and value of a constant. -/
inductive ConstantKey where
  | integer (value : Int)
  | real (value : ℚ)
  | text (value : String)
  deriving DecidableEq

namespace Constant

def key : Constant → ConstantKey
  | .integer n => .integer n
  | .real x => .real x.toRat
  | .text s => .text s

def Fits (c : Constant) : Prop := ∃ w, c.word = .ok w

theorem word_eq_stored {c : Constant} (fits : c.Fits) : c.word = .ok c.stored := by
  obtain ⟨w, hw⟩ := fits
  simp [stored, hw, Except.toOption]

/-- A real fits exactly if it can be stored. -/
theorem fits_real_iff {x : Binary64} :
    (Constant.real x).Fits ↔ ∃ bits, StoredReal.encode x = .ok bits := by
  constructor
  · rintro ⟨w, hw⟩
    obtain ⟨bits, encoded, -⟩ := map_eq_ok_iff.mp hw
    exact ⟨bits, encoded⟩
  · rintro ⟨bits, encoded⟩
    exact ⟨⟨.real, bits⟩, map_eq_ok_iff.mpr ⟨bits, encoded, rfl⟩⟩

theorem isFinite_of_fits {x : Binary64} (fits : (Constant.real x).Fits) : x.isFinite = true := by
  obtain ⟨bits, encoded⟩ := fits_real_iff.mp fits
  cases x with
  | finite => rfl
  | infinite | nan => cases encoded

/-- Sharing a slot is having the same kind and value. -/
theorem same_iff_key_eq {c d : Constant} (hc : c.Fits) (hd : d.Fits) :
    c.same d = true ↔ c.key = d.key := by
  cases c <;> cases d <;> simp only [same, key, reduceCtorEq, Bool.false_eq_true, beq_iff_eq,
    ConstantKey.integer.injEq, ConstantKey.text.injEq, ConstantKey.real.injEq]
  next x y => exact Binary64.sameValue_iff (isFinite_of_fits hc) (isFinite_of_fits hd)

/-- Constants that share a slot have one word. -/
theorem word_eq_of_key_eq {c d : Constant} (hc : c.Fits) (hd : d.Fits) (same : c.key = d.key) :
    c.word = d.word := by
  cases c <;> cases d <;> simp only [key, reduceCtorEq, ConstantKey.integer.injEq,
    ConstantKey.text.injEq, ConstantKey.real.injEq] at same
  · rw [same]
  next x y =>
    obtain ⟨bits, encoded⟩ := fits_real_iff.mp hc
    have other := StoredReal.encode_of_toRat_eq (isFinite_of_fits hd) same encoded
    simp only [word, Word.ofReal, encoded, other]
  · rw [same]

/-- Constants that share a slot have one word. -/
theorem stored_eq_of_key_eq {c d : Constant} (hc : c.Fits) (hd : d.Fits) (same : c.key = d.key) :
    c.stored = d.stored := by
  rw [stored, stored, word_eq_of_key_eq hc hd same]

end Constant

end WordMachine.Source
