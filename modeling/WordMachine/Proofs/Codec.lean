import WordMachine.Instruction
import WordMachine.Proofs.Results
import WordMachine.Proofs.Text.Numeral

/-!
# Instructions and their words

Decoding inverts encoding, and a draft becomes an instruction exactly when all of its fields fit, keeping
the value of each; otherwise the first field that does not fit is reported, if its value can be written. So
drafts whose fields fit and instruction words stand for one another (`instruction_codec`). A location has a page
and an offset that fit exactly when it is below 2048.
-/
namespace WordMachine

namespace Instruction

/-- The fields of a word do not overlap, so each is read back from its own bits. -/
theorem ofBits_encode (i : Instruction) : ofBits i.encode.bits = i := by
  have hm := i.mnemonic.code_lt
  have ha := i.accumulator.isLt
  have hx := i.index.isLt
  have hi : i.indirect.toNat ≤ 1 := Bool.toNat_le i.indirect
  have hp := i.page.isLt
  have ho := i.offset.isLt
  have pattern : i.encode.bits.toNat = i.mnemonic.code * 2 ^ 18 + i.accumulator.val * 2 ^ 15
      + i.index.val * 2 ^ 12 + i.indirect.toNat * 2 ^ 11 + i.page.val * 2 ^ 10 + i.offset.val := by
    rw [encode, BitVec.toNat_ofNat, Nat.mod_eq_of_lt i.pattern_lt]
    rfl
  have code : (Fin.ofNat 64 (i.encode.bits.toNat / 2 ^ 18)) = ⟨i.mnemonic.code, hm⟩ :=
    Fin.ext (by simp only [Fin.val_ofNat]; omega)
  have accumulator : Fin.ofNat 8 (i.encode.bits.toNat / 2 ^ 15) = i.accumulator :=
    Fin.ext (by simp only [Fin.val_ofNat]; omega)
  have index : Fin.ofNat 8 (i.encode.bits.toNat / 2 ^ 12) = i.index :=
    Fin.ext (by simp only [Fin.val_ofNat]; omega)
  have flag : i.encode.bits.toNat / 2 ^ 11 % 2 = i.indirect.toNat := by omega
  have indirect : (i.encode.bits.toNat / 2 ^ 11 % 2 == 1) = i.indirect := by
    rw [flag]
    cases i.indirect <;> rfl
  have page : Fin.ofNat 2 (i.encode.bits.toNat / 2 ^ 10) = i.page :=
    Fin.ext (by simp only [Fin.val_ofNat]; omega)
  have offset : Fin.ofNat 1024 i.encode.bits.toNat = i.offset :=
    Fin.ext (by simp only [Fin.val_ofNat]; omega)
  simp only [ofBits, code, accumulator, index, indirect, page, offset, Mnemonic.ofCode_code]

/-- An instruction is read back from its word. -/
theorem decode_encode (i : Instruction) : decode i.encode = .ok i :=
  congrArg Except.ok (ofBits_encode i)

theorem isInstruction_of_decode {w : Word} {i : Instruction} (decoded : decode w = .ok i) :
    w.isInstruction = true := by
  obtain ⟨tag, bits⟩ := w
  cases tag with
  | instruction => rfl
  | _ => cases decoded

/-- Every instruction word is the word of the instruction that it decodes to. -/
theorem encode_ofBits (bits : BitVec 24) : (ofBits bits).encode = ⟨.instruction, bits⟩ := by
  have bound := bits.isLt
  have flag : (bits.toNat / 2 ^ 11 % 2 == 1).toNat = bits.toNat / 2 ^ 11 % 2 := by
    rcases Nat.mod_two_eq_zero_or_one (bits.toNat / 2 ^ 11) with zero | one
    · rw [zero]
      rfl
    · rw [one]
      rfl
  have pattern : (ofBits bits).pattern = bits.toNat := by
    have code : (ofBits bits).mnemonic.code = bits.toNat / 2 ^ 18 % 64 := Mnemonic.code_ofCode _
    have indirect : (ofBits bits).indirect.toNat = bits.toNat / 2 ^ 11 % 2 := flag
    rw [Instruction.pattern, code, indirect]
    simp only [ofBits, Fin.val_ofNat]
    omega
  rw [encode, pattern, BitVec.ofNat_toNat, BitVec.setWidth_eq]

/-- Zero is not among the index registers, so the register tells the field. -/
theorem index_eq_of_indexRegister? {i j : Instruction}
    (same : i.indexRegister?.map Fin.val = j.indexRegister?.map Fin.val) : i.index = j.index := by
  have equal : i.indexRegister? = j.indexRegister? := Option.map_injective Fin.val_injective same
  unfold Instruction.indexRegister? at equal
  split at equal
  next none =>
    split at equal
    next none' => rw [none, none']
    · cases equal
  · split at equal
    · cases equal
    · exact Option.some.inj equal

def draft (i : Instruction) : InstructionDraft where
  mnemonic := i.mnemonic
  accumulator := i.accumulator.val
  offset := i.offset.val
  page := i.page.val
  index := i.indexRegister?.map fun n => (n.val : Int)
  indirect := i.indirect

end Instruction

/-! ## Fields -/

/-- A field that is let through has its value. -/
theorem checkField_eq_ok_iff {field : String} {value low high n : Int} :
    checkField field value low high = .ok n ↔ n = value ∧ low ≤ value ∧ value ≤ high := by
  unfold checkField
  split
  next inside => simp [inside, eq_comm]
  next outside => simp [outside]

theorem checkField_of_inside {field : String} {value low high : Int} (inside : low ≤ value ∧ value ≤ high) :
    checkField field value low high = .ok value :=
  if_pos inside

theorem checkField_of_outside {field : String} {value low high : Int} (outside : ¬ (low ≤ value ∧ value ≤ high)) :
    checkField field value low high = .error (FieldOverflow.error ⟨field, value, low, high⟩) :=
  if_neg outside

/-- A location as page and offset: both fit exactly when the location is below 2048. -/
theorem splitAddress_spec (address : Int) :
    (splitAddress address).1 * pageSize + (splitAddress address).2 = address ∧
    0 ≤ (splitAddress address).2 ∧ (splitAddress address).2 ≤ 1023 := by
  have offset := Int.fmod_nonneg_of_pos address (show (0 : Int) < 1024 by decide)
  have below := Int.fmod_lt_of_pos address (show (0 : Int) < 1024 by decide)
  have whole := Int.mul_fdiv_add_fmod address 1024
  have size : ((pageSize : Nat) : Int) = 1024 := rfl
  simp only [splitAddress, size]
  omega

namespace InstructionDraft

/-- Every field is in its range. -/
structure Fits (d : InstructionDraft) : Prop where
  accumulator : 0 ≤ d.accumulator ∧ d.accumulator ≤ 7
  index : ∀ n, d.index = some n → 1 ≤ n ∧ n ≤ 7
  page : 0 ≤ d.page ∧ d.page ≤ 1
  offset : 0 ≤ d.offset ∧ d.offset ≤ 1023

/-- The instruction has the values of the draft in all its fields. -/
structure Keeps (d : InstructionDraft) (i : Instruction) : Prop where
  mnemonic : i.mnemonic = d.mnemonic
  accumulator : (i.accumulator.val : Int) = d.accumulator
  index : i.indexRegister?.map (fun n => (n.val : Int)) = d.index
  indirect : i.indirect = d.indirect
  page : (i.page.val : Int) = d.page
  offset : (i.offset.val : Int) = d.offset

theorem fits_of_check {d : InstructionDraft} {i : Instruction} (checked : d.check = .ok i) : d.Fits := by
  obtain ⟨mnemonic, accumulator, offset, page, index, indirect⟩ := d
  obtain ⟨a, ha, checked⟩ := bind_eq_ok_iff.mp checked
  cases index with
  | none =>
    obtain ⟨x, -, checked⟩ := bind_eq_ok_iff.mp checked
    obtain ⟨p, hp, checked⟩ := bind_eq_ok_iff.mp checked
    obtain ⟨o, ho, -⟩ := bind_eq_ok_iff.mp checked
    exact ⟨(checkField_eq_ok_iff.mp ha).2, by simp, (checkField_eq_ok_iff.mp hp).2,
      (checkField_eq_ok_iff.mp ho).2⟩
  | some n =>
    obtain ⟨x, hx, checked⟩ := bind_eq_ok_iff.mp checked
    obtain ⟨p, hp, checked⟩ := bind_eq_ok_iff.mp checked
    obtain ⟨o, ho, -⟩ := bind_eq_ok_iff.mp checked
    refine ⟨(checkField_eq_ok_iff.mp ha).2, fun k hk => ?_, (checkField_eq_ok_iff.mp hp).2,
      (checkField_eq_ok_iff.mp ho).2⟩
    cases hk
    exact (checkField_eq_ok_iff.mp hx).2

theorem val_ofNat_toNat {n : Nat} [NeZero n] {value : Int} (low : 0 ≤ value) (high : value < n) :
    ((Fin.ofNat n value.toNat).val : Int) = value := by
  rw [Fin.val_ofNat, Nat.mod_eq_of_lt (by omega)]
  omega

/-- A draft whose fields fit becomes an instruction with the same values. -/
theorem check_of_fits {d : InstructionDraft} (fits : d.Fits) : ∃ i, d.check = .ok i ∧ d.Keeps i := by
  obtain ⟨mnemonic, accumulator, offset, page, index, indirect⟩ := d
  have ha := fits.accumulator
  have hp := fits.page
  have ho := fits.offset
  dsimp only at ha hp ho
  cases index with
  | none =>
    refine ⟨⟨mnemonic, Fin.ofNat 8 accumulator.toNat, 0, indirect, Fin.ofNat 2 page.toNat,
      Fin.ofNat 1024 offset.toNat⟩, ?_, ⟨rfl, ?_, rfl, rfl, ?_, ?_⟩⟩
    · simp [check, checkField, ha, hp, ho, bind, Except.bind, pure, Except.pure]
    · exact val_ofNat_toNat ha.1 (by omega)
    · exact val_ofNat_toNat hp.1 (by omega)
    · exact val_ofNat_toNat ho.1 (by omega)
  | some n =>
    have hn := fits.index n rfl
    have register : ((Fin.ofNat 8 n.toNat).val : Int) = n := val_ofNat_toNat (by omega) (by omega)
    refine ⟨⟨mnemonic, Fin.ofNat 8 accumulator.toNat, Fin.ofNat 8 n.toNat, indirect,
      Fin.ofNat 2 page.toNat, Fin.ofNat 1024 offset.toNat⟩, ?_, ⟨rfl, ?_, ?_, rfl, ?_, ?_⟩⟩
    · simp [check, checkField, ha, hn, hp, ho, bind, Except.bind, pure, Except.pure]
    · exact val_ofNat_toNat ha.1 (by omega)
    · have indexed : Fin.ofNat 8 n.toNat ≠ 0 := by
        intro zero
        rw [zero] at register
        simp only [Fin.val_zero] at register
        omega
      simp only [Instruction.indexRegister?, if_neg indexed, Option.map_some, register]
    · exact val_ofNat_toNat hp.1 (by omega)
    · exact val_ofNat_toNat ho.1 (by omega)

/-- The values of all fields leave no choice of the instruction. -/
theorem Keeps.eq {d : InstructionDraft} {i j : Instruction} (left : d.Keeps i) (right : d.Keeps j) : i = j := by
  have accumulator : i.accumulator = j.accumulator :=
    Fin.ext (Int.ofNat_inj.mp (left.accumulator.trans right.accumulator.symm))
  have page : i.page = j.page := Fin.ext (Int.ofNat_inj.mp (left.page.trans right.page.symm))
  have offset : i.offset = j.offset := Fin.ext (Int.ofNat_inj.mp (left.offset.trans right.offset.symm))
  have index : i.index = j.index := by
    refine Instruction.index_eq_of_indexRegister? (Option.map_injective Int.ofNat_injective ?_)
    rw [Option.map_map, Option.map_map]
    exact left.index.trans right.index.symm
  have mnemonic := left.mnemonic.trans right.mnemonic.symm
  have indirect := left.indirect.trans right.indirect.symm
  cases i
  cases j
  cases mnemonic
  cases accumulator
  cases index
  cases indirect
  cases page
  cases offset
  rfl

theorem Keeps.draft {d : InstructionDraft} {i : Instruction} (keeps : d.Keeps i) : i.draft = d := by
  obtain ⟨mnemonic, accumulator, offset, page, index, indirect⟩ := d
  simp only [Instruction.draft, keeps.mnemonic, keeps.accumulator, keeps.index, keeps.indirect, keeps.page,
    keeps.offset]

/-- A draft is let through exactly if its fields fit, and then nothing of it is changed. -/
theorem check_eq_ok_iff {d : InstructionDraft} {i : Instruction} : d.check = .ok i ↔ d.Fits ∧ d.Keeps i := by
  constructor
  · intro checked
    have fits := fits_of_check checked
    obtain ⟨j, again, keeps⟩ := check_of_fits fits
    cases checked.symm.trans again
    exact ⟨fits, keeps⟩
  · rintro ⟨fits, keeps⟩
    obtain ⟨j, checked, same⟩ := check_of_fits fits
    rw [checked, keeps.eq same]

/-- The first field out of its range, in the order accumulator, index register, page, offset. -/
inductive FirstUnfit (d : InstructionDraft) : FieldOverflow → Prop where
  | accumulator (unfit : ¬ (0 ≤ d.accumulator ∧ d.accumulator ≤ 7)) :
    FirstUnfit d ⟨"accumulator", d.accumulator, 0, 7⟩
  | index {n : Int} (indexed : d.index = some n) (accumulator : 0 ≤ d.accumulator ∧ d.accumulator ≤ 7)
      (unfit : ¬ (1 ≤ n ∧ n ≤ 7)) : FirstUnfit d ⟨"index register", n, 1, 7⟩
  | page (accumulator : 0 ≤ d.accumulator ∧ d.accumulator ≤ 7) (index : ∀ n, d.index = some n → 1 ≤ n ∧ n ≤ 7)
      (unfit : ¬ (0 ≤ d.page ∧ d.page ≤ 1)) : FirstUnfit d ⟨"page", d.page, 0, 1⟩
  | offset (accumulator : 0 ≤ d.accumulator ∧ d.accumulator ≤ 7) (index : ∀ n, d.index = some n → 1 ≤ n ∧ n ≤ 7)
      (page : 0 ≤ d.page ∧ d.page ≤ 1) (unfit : ¬ (0 ≤ d.offset ∧ d.offset ≤ 1023)) :
    FirstUnfit d ⟨"offset", d.offset, 0, 1023⟩

/-- With the registers in their ranges, page and offset are what is left to check. -/
theorem check_of_registers {d : InstructionDraft} (accumulator : 0 ≤ d.accumulator ∧ d.accumulator ≤ 7)
    (index : ∀ n, d.index = some n → 1 ≤ n ∧ n ≤ 7) :
    ∃ made : Int → Int → Instruction, d.check =
      checkField "page" d.page 0 1 >>= fun page =>
        checkField "offset" d.offset 0 1023 >>= fun offset => .ok (made page offset) := by
  unfold check
  rw [checkField_of_inside accumulator]
  cases register : d.index with
  | none => exact ⟨_, rfl⟩
  | some n =>
    simp only [checkField_of_inside (index n register)]
    exact ⟨_, rfl⟩

/-- Of the fields of a draft that does not fit one is the first. -/
theorem fits_or_firstUnfit (d : InstructionDraft) : d.Fits ∨ ∃ e, d.FirstUnfit e := by
  by_cases accumulator : 0 ≤ d.accumulator ∧ d.accumulator ≤ 7
  · by_cases index : ∀ n, d.index = some n → 1 ≤ n ∧ n ≤ 7
    · by_cases page : 0 ≤ d.page ∧ d.page ≤ 1
      · by_cases offset : 0 ≤ d.offset ∧ d.offset ≤ 1023
        · exact Or.inl ⟨accumulator, index, page, offset⟩
        · exact Or.inr ⟨_, .offset accumulator index page offset⟩
      · exact Or.inr ⟨_, .page accumulator index page⟩
    · push Not at index
      obtain ⟨n, indexed, unfit⟩ := index
      exact Or.inr ⟨_, .index indexed accumulator (fun fits => by omega)⟩
  · exact Or.inr ⟨_, .accumulator accumulator⟩

/-- The bounds of the fields are short, so only the value can be too long to be written. -/
theorem FirstUnfit.isWritable_iff {d : InstructionDraft} {o : FieldOverflow} (first : d.FirstUnfit o) :
    o.isWritable = Text.isWritable o.value := by
  have small (n : Nat) (below : n < 1024) : Text.isWritable n = true :=
    Text.isWritable_of_lt (Nat.lt_trans below (by decide))
  have bounds : Text.isWritable o.low = true ∧ Text.isWritable o.high = true := by
    cases first with
    | accumulator => exact ⟨small 0 (by decide), small 7 (by decide)⟩
    | index => exact ⟨small 1 (by decide), small 7 (by decide)⟩
    | page => exact ⟨small 0 (by decide), small 1 (by decide)⟩
    | offset => exact ⟨small 0 (by decide), small 1023 (by decide)⟩
  simp [FieldOverflow.isWritable, bounds]

theorem check_of_firstUnfit {d : InstructionDraft} {o : FieldOverflow} (first : d.FirstUnfit o) :
    d.check = .error o.error := by
  cases first with
  | accumulator unfit => exact bind_eq_error_iff.mpr (Or.inl (checkField_of_outside unfit))
  | index indexed accumulator unfit =>
    unfold check
    rw [indexed]
    refine bind_eq_error_iff.mpr (Or.inr ⟨_, checkField_of_inside accumulator, ?_⟩)
    exact bind_eq_error_iff.mpr (Or.inl (checkField_of_outside unfit))
  | page accumulator index unfit =>
    obtain ⟨made, rest⟩ := check_of_registers accumulator index
    rw [rest]
    exact bind_eq_error_iff.mpr (Or.inl (checkField_of_outside unfit))
  | offset accumulator index page unfit =>
    obtain ⟨made, rest⟩ := check_of_registers accumulator index
    rw [rest]
    refine bind_eq_error_iff.mpr (Or.inr ⟨_, checkField_of_inside page, ?_⟩)
    exact bind_eq_error_iff.mpr (Or.inl (checkField_of_outside unfit))

/-- A draft either becomes an instruction or is refused for its first field out of range. -/
theorem check_eq_error_iff {d : InstructionDraft} {e : FieldError} :
    d.check = .error e ↔ ∃ o, d.FirstUnfit o ∧ o.error = e := by
  constructor
  · intro failed
    rcases d.fits_or_firstUnfit with fits | ⟨o, first⟩
    · obtain ⟨i, checked, -⟩ := check_of_fits fits
      cases failed.symm.trans checked
    · exact ⟨o, first, Except.error.inj ((check_of_firstUnfit first).symm.trans failed)⟩
  · rintro ⟨o, first, rfl⟩
    exact check_of_firstUnfit first

def encode (d : InstructionDraft) : Except FieldError Word :=
  Instruction.encode <$> d.check

end InstructionDraft

end WordMachine
