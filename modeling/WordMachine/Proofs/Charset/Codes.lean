import WordMachine.Charset
import WordMachine.Proofs.Results

/-!
# Characters and their codes

Characters of the set and codes that stand for characters are in one-to-one correspondence. So a word that is packed
from at most four characters has their codes, with those of null characters after them, and a word whose codes all
stand for characters is packed from these.
-/
namespace WordMachine

/-- The first of a list that has a property, with its position. -/
def IsFirst {α : Type} (p : α → Prop) (list : List α) (position : Nat) (x : α) : Prop :=
  p x ∧ ∃ before after, list = before ++ x :: after ∧ before.length = position ∧ ∀ y ∈ before, ¬ p y

namespace IsFirst

variable {α : Type} {p : α → Prop} {list : List α} {position : Nat} {x : α}

theorem append (first : IsFirst p list position x) (more : List α) : IsFirst p (list ++ more) position x := by
  obtain ⟨holds, before, after, rfl, length, none⟩ := first
  exact ⟨holds, before, after ++ more, by simp, length, none⟩

theorem after (first : IsFirst p list position x) {more : List α} (none : ∀ y ∈ more, ¬ p y) :
    IsFirst p (more ++ list) (more.length + position) x := by
  obtain ⟨holds, before, after, rfl, rfl, earlier⟩ := first
  refine ⟨holds, more ++ before, after, by simp, List.length_append, fun y member => ?_⟩
  exact (List.mem_append.mp member).elim (none y) (earlier y)

end IsFirst

namespace Charset

/-! ## Single codes -/

/-- The code of a character has six bits and stands for that character. -/
theorem char?_of_code? {c : Char} {n : Nat} (coded : code? c = some n) : n < 64 ∧ char? n = some c := by
  unfold code? at coded
  split at coded
  next letter =>
    cases coded
    have low : 'A'.toNat ≤ c.toNat := letter.1
    have high : c.toNat ≤ 'Z'.toNat := letter.2
    simp only [show 'A'.toNat = 65 from rfl, show 'Z'.toNat = 90 from rfl] at low high ⊢
    have range : 1 ≤ c.toNat - 65 + 1 ∧ c.toNat - 65 + 1 ≤ 26 := by omega
    have back : c.toNat - 65 + 1 - 1 + 65 = c.toNat := by omega
    refine ⟨by omega, ?_⟩
    rw [char?, if_pos range, show 'A'.toNat = 65 from rfl, back, Char.ofNat_toNat]
  · split at coded
    next digit =>
      cases coded
      have low : '0'.toNat ≤ c.toNat := digit.1
      have high : c.toNat ≤ '9'.toNat := digit.2
      simp only [show '0'.toNat = 48 from rfl, show '9'.toNat = 57 from rfl] at low high ⊢
      have noLetter : ¬ (1 ≤ c.toNat - 48 + 32 ∧ c.toNat - 48 + 32 ≤ 26) := by omega
      have range : 32 ≤ c.toNat - 48 + 32 ∧ c.toNat - 48 + 32 ≤ 41 := by omega
      have back : c.toNat - 48 + 32 - 32 + 48 = c.toNat := by omega
      refine ⟨by omega, ?_⟩
      rw [char?, if_neg noLetter, if_pos range, show '0'.toNat = 48 from rfl, back, Char.ofNat_toNat]
    · have listed : ∀ entry ∈ symbols, entry.2 < 64 ∧ char? entry.2 = some entry.1 := by decide
      obtain ⟨before, after, split, -⟩ := List.lookup_eq_some_iff.mp coded
      exact listed (c, n) (by simp [split])

/-- A code of six bits is that of the character it stands for. -/
theorem code?_of_char? {n : Nat} {c : Char} (small : n < 64) (stands : char? n = some c) : code? c = some n := by
  have table : ∀ n : Fin 64, (char? n).all (code? · == some n.val) = true := by decide +kernel
  have entry := table ⟨n, small⟩
  rw [stands] at entry
  exact eq_of_beq entry

theorem char?_of_supports {c : Char} (supported : supports c = true) :
    (code? c).getD 0 < 64 ∧ char? ((code? c).getD 0) = some c := by
  obtain ⟨n, coded⟩ := Option.isSome_iff_exists.mp supported
  rw [coded, Option.getD_some]
  exact char?_of_code? coded

theorem lt_of_mem_codes {bits : BitVec 24} {code : Nat} (member : code ∈ codes bits) : code < 64 := by
  simp only [codes, List.mem_cons, List.not_mem_nil, or_false] at member
  rcases member with rfl | rfl | rfl | rfl <;> exact Nat.mod_lt _ (by norm_num)

/-! ## Packed characters -/

/-- A word is put together from four codes, and these are its codes. -/
theorem codes_packCodes {a b c d : Char} (ha : (code? a).getD 0 < 64) (hb : (code? b).getD 0 < 64)
    (hc : (code? c).getD 0 < 64) (hd : (code? d).getD 0 < 64) :
    codes (.ofNat 24 (packCodes [a, b, c, d])) = [a, b, c, d].map fun x => (code? x).getD 0 := by
  simp only [packCodes, List.foldl_cons, List.foldl_nil, codes, List.map_cons, List.map_nil,
    BitVec.toNat_ofNat, List.cons.injEq, and_true]
  exact ⟨by omega, by omega, by omega, by omega⟩

theorem map_char?_codes {cs : List Char} (four : cs.length = charsPerWord) (supported : ∀ c ∈ cs, supports c = true) :
    (codes (.ofNat 24 (packCodes cs))).map char? = cs.map some := by
  match cs, four with
  | [a, b, c, d], _ =>
    simp only [List.forall_mem_cons] at supported
    obtain ⟨ha, hb, hc, hd, -⟩ := supported
    have ka := char?_of_supports ha
    have kb := char?_of_supports hb
    have kc := char?_of_supports hc
    have kd := char?_of_supports hd
    rw [codes_packCodes ka.1 kb.1 kc.1 kd.1]
    simp [ka.2, kb.2, kc.2, kd.2]

def padded (text : List Char) : List Char :=
  text ++ List.replicate (charsPerWord - text.length) '\x00'

theorem length_padded {text : List Char} (short : text.length ≤ charsPerWord) :
    (padded text).length = charsPerWord := by
  rw [padded, List.length_append, List.length_replicate]
  omega

theorem supports_append_null {text : List Char} (supported : ∀ c ∈ text, supports c = true) (k : Nat) :
    ∀ c ∈ text ++ List.replicate k '\x00', supports c = true := by
  intro c member
  rcases List.mem_append.mp member with written | filled
  · exact supported c written
  · rw [List.eq_of_mem_replicate filled]
    decide

/-- The codes of a packed word stand for its characters. -/
theorem map_char?_pack {text : List Char} (short : text.length ≤ charsPerWord)
    (supported : ∀ c ∈ text, supports c = true) : (codes (pack text)).map char? = (padded text).map some :=
  map_char?_codes (length_padded short) (supports_append_null supported _)

theorem length_of_map_char? {bits : BitVec 24} {cs : List Char} (stand : (codes bits).map char? = cs.map some) :
    cs.length = charsPerWord := by
  simpa [codes, charsPerWord] using (congrArg List.length stand).symm

/-- Characters are packed into the word whose codes stand for them. -/
theorem pack_of_map_char? {bits : BitVec 24} {cs : List Char} (stand : (codes bits).map char? = cs.map some) :
    pack cs = bits := by
  have code (n : Nat) (c : Char) (small : n < 64) (stands : char? n = some c) : (code? c).getD 0 = n := by
    rw [code?_of_char? small stands, Option.getD_some]
  match cs, length_of_map_char? stand with
  | [a, b, c, d], _ =>
    simp only [codes, List.map_cons, List.map_nil, List.cons.injEq, and_true] at stand
    obtain ⟨ha, hb, hc, hd⟩ := stand
    apply BitVec.eq_of_toNat_eq
    have bound := bits.isLt
    simp only [pack, charsPerWord, List.length_cons, List.length_nil, Nat.reduceAdd, Nat.sub_self,
      List.replicate_zero, List.append_nil, packCodes, List.foldl_cons, List.foldl_nil, BitVec.toNat_ofNat,
      code _ a (Nat.mod_lt _ (by norm_num)) ha, code _ b (Nat.mod_lt _ (by norm_num)) hb,
      code _ c (Nat.mod_lt _ (by norm_num)) hc, code _ d (Nat.mod_lt _ (by norm_num)) hd]
    omega

/-! ## Lists of characters and of codes -/

section

variable {text : List Char} {codes : List Nat} {offset : Int}

theorem unsupported?_eq_none (supported : ∀ c ∈ text, supports c = true) (offset : Int) :
    unsupported? text offset = none := by
  induction text generalizing offset with
  | nil => rfl
  | cons c rest ih =>
    simp only [unsupported?, supported c (by simp), if_true]
    exact ih (fun d hd => supported d (by simp [hd])) _

theorem supports_of_unsupported? (clean : unsupported? text offset = none) : ∀ c ∈ text, supports c = true := by
  induction text generalizing offset with
  | nil => exact nofun
  | cons c rest ih =>
    rw [unsupported?] at clean
    split at clean
    next supported => exact List.forall_mem_cons.mpr ⟨supported, ih clean⟩
    · cases clean

/-- What is reported of a text is its first character outside the set, at its position. -/
theorem isFirst_of_unsupported? {e : CharsetError} (found : unsupported? text offset = some e) :
    ∃ position c, IsFirst (fun c => supports c = false) text position c ∧
      e = .unsupported c.toString (offset + position) := by
  induction text generalizing offset with
  | nil => cases found
  | cons c rest ih =>
    rw [unsupported?] at found
    split at found
    next supported =>
      obtain ⟨position, d, first, rfl⟩ := ih found
      have others : ∀ d ∈ [c], ¬ supports d = false := by simpa using supported
      refine ⟨1 + position, d, first.after others, ?_⟩
      push_cast
      rw [add_assoc]
    next unsupported =>
      cases found
      exact ⟨0, c, ⟨Bool.eq_false_iff.mpr unsupported, [], rest, rfl, rfl, nofun⟩, by simp⟩

/-- A list of codes is a text exactly when each of its codes stands for a character. -/
theorem exists_decodeCodes_iff :
    (∃ text, decodeCodes codes offset = .ok text) ↔ ∀ code ∈ codes, (char? code).isSome = true := by
  induction codes generalizing offset with
  | nil => simp [decodeCodes]
  | cons code rest ih =>
    rw [List.forall_mem_cons, ← @ih (offset + 1), decodeCodes]
    cases char? code with
    | none => simp
    | some c => simp [map_eq_ok_iff]

/-- The codes of a text stand for its characters. -/
theorem map_char?_of_decodeCodes (decoded : decodeCodes codes offset = .ok text) : codes.map char? = text.map some := by
  induction codes generalizing offset text with
  | nil =>
    cases decoded
    rfl
  | cons code rest ih =>
    rw [decodeCodes] at decoded
    cases found : char? code with
    | none =>
      rw [found] at decoded
      cases decoded
    | some c =>
      rw [found] at decoded
      obtain ⟨others, read, rfl⟩ := map_eq_ok_iff.mp decoded
      rw [List.map_cons, List.map_cons, found, ih read]

theorem isSome_of_map_char? (stand : codes.map char? = text.map some) :
    ∀ code ∈ codes, (char? code).isSome = true := by
  intro code member
  have listed : char? code ∈ codes.map char? := List.mem_map_of_mem member
  rw [stand] at listed
  obtain ⟨c, -, found⟩ := List.mem_map.mp listed
  rw [← found, Option.isSome_some]

/-- What is reported of a list of codes is its first one without a character, at its position. -/
theorem isFirst_of_decodeCodes {e : CharsetError} (refused : decodeCodes codes offset = .error e) :
    ∃ position code, IsFirst (fun code => char? code = none) codes position code ∧
      e = .unmapped code (offset + position) := by
  induction codes generalizing offset with
  | nil => cases refused
  | cons code rest ih =>
    rw [decodeCodes] at refused
    cases found : char? code with
    | none =>
      rw [found] at refused
      cases refused
      exact ⟨0, code, ⟨found, [], rest, rfl, rfl, nofun⟩, by simp⟩
    | some c =>
      rw [found] at refused
      obtain ⟨position, other, first, rfl⟩ := ih (map_eq_error_iff.mp refused)
      have others : ∀ k ∈ [code], ¬ char? k = none := by simp [found]
      refine ⟨1 + position, other, first.after others, ?_⟩
      push_cast
      rw [add_assoc]

theorem unmapped_of_decodeCodes {e : CharsetError} (refused : decodeCodes codes offset = .error e) :
    ∃ code position, e = .unmapped code position := by
  obtain ⟨position, code, -, rfl⟩ := isFirst_of_decodeCodes refused
  exact ⟨code, _, rfl⟩

end

end Charset

end WordMachine
