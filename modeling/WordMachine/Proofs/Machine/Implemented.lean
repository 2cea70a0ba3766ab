import WordMachine.Proofs.Machine.Reachable

/-!
# The instructions that are carried out

Each family has mnemonics that the machine carries out; any other is refused before its address is looked at
(`execute_of_unimplemented`). Of those carried out all but three use their address.
-/
namespace WordMachine

namespace Mnemonic

def Family.carriedOut : Family → List Mnemonic
  | .accumulator => [.nil, .or, .neqv, .and, .add, .subt, .mult, .dvd, .take, .tneg, .tnot]
  | .index => [.nilx, .orx, .neqvx, .andx, .addx, .subtx, .multx, .dvdx]
  | .store => [.put, .pneg, .pnot, .incr, .decr]
  | .skip => [.skip, .skae, .skan, .skal, .skag]
  | .shift => [.shl, .rot]
  | .jump => [.jump, .jez, .jnz, .jlz, .jgz]
  | .library => [.extra]

def isImplemented (k : Mnemonic) : Bool :=
  decide (k ∈ k.family.carriedOut)

/-- Whether an instruction does anything with its address; of those carried out all but three do. -/
def usesAddress (k : Mnemonic) : Bool :=
  k.isImplemented && !decide (k ∈ [.nil, .skip, .nilx])

/-- The family of an instruction that is carried out has it on its list. -/
theorem mem_carriedOut {k : Mnemonic} {family : Family} (mine : k.family = family)
    (implemented : k.isImplemented = true) : k ∈ family.carriedOut :=
  mine ▸ of_decide_eq_true implemented

theorem isImplemented_of_usesAddress {k : Mnemonic} (uses : k.usesAddress = true) : k.isImplemented = true :=
  (Bool.and_eq_true_iff.mp uses).1

section

variable {k : Mnemonic} (implemented : k.isImplemented = true)
include implemented

theorem eq_of_accumulator (mine : k.family = .accumulator) :
    k = .nil ∨ k = .or ∨ k = .neqv ∨ k = .and ∨ k = .add ∨ k = .subt ∨ k = .mult ∨ k = .dvd ∨
      k = .take ∨ k = .tneg ∨ k = .tnot := by
  simpa only [Family.carriedOut, List.mem_cons, List.not_mem_nil, or_false] using mem_carriedOut mine implemented

theorem eq_of_index (mine : k.family = .index) :
    k = .nilx ∨ k = .orx ∨ k = .neqvx ∨ k = .andx ∨ k = .addx ∨ k = .subtx ∨ k = .multx ∨ k = .dvdx := by
  simpa only [Family.carriedOut, List.mem_cons, List.not_mem_nil, or_false] using mem_carriedOut mine implemented

theorem eq_of_store (mine : k.family = .store) :
    k = .put ∨ k = .pneg ∨ k = .pnot ∨ k = .incr ∨ k = .decr := by
  simpa only [Family.carriedOut, List.mem_cons, List.not_mem_nil, or_false] using mem_carriedOut mine implemented

theorem eq_of_skip (mine : k.family = .skip) :
    k = .skip ∨ k = .skae ∨ k = .skan ∨ k = .skal ∨ k = .skag := by
  simpa only [Family.carriedOut, List.mem_cons, List.not_mem_nil, or_false] using mem_carriedOut mine implemented

theorem eq_of_shift (mine : k.family = .shift) :
    k = .shl ∨ k = .rot := by
  simpa only [Family.carriedOut, List.mem_cons, List.not_mem_nil, or_false] using mem_carriedOut mine implemented

theorem eq_of_jump (mine : k.family = .jump) :
    k = .jump ∨ k = .jez ∨ k = .jnz ∨ k = .jlz ∨ k = .jgz := by
  simpa only [Family.carriedOut, List.mem_cons, List.not_mem_nil, or_false] using mem_carriedOut mine implemented

end

/-- The library is reached by one mnemonic. -/
theorem eq_extra_of_library {k : Mnemonic} (library : k.family = .library) : k = .extra := by
  revert library
  cases k <;> decide

end Mnemonic

namespace Machine

variable {m : Machine} {i : Instruction}

/-- An instruction that is not carried out fails for that, whatever its address. -/
theorem execute_of_unimplemented (unimplemented : i.mnemonic.isImplemented = false) :
    m.execute i = (m.supply, .error (.fault (.notImplemented i.mnemonic))) := by
  have unlisted {k : Mnemonic} (listed : k.isImplemented = true) : i.mnemonic ≠ k := by
    rintro rfl
    cases unimplemented.symm.trans listed
  unfold execute executeAccumulator executeIndex executeStore executeSkip executeShift executeJump
  dsimp only
  split
  -- The one mnemonic of the library is carried out; every other family has a last case for those that are not.
  case h_7 library => exact absurd (Mnemonic.eq_extra_of_library library) (unlisted rfl)
  all_goals
    split
    all_goals first | rfl | exact absurd ‹_› (unlisted rfl)

end Machine

end WordMachine
