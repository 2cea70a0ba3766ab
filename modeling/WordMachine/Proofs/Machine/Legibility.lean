import WordMachine.Proofs.Assembly.Faithful
import WordMachine.Proofs.Charset.Codes
import WordMachine.Proofs.Machine.Rendering
import WordMachine.Proofs.Machine.Soundness

/-!
# Legible memories

Every text that the assembler packs is legible, and so is every word that an assembled program loads. Only
the instructions that rearrange bits under a tag can leave a text that is not; any other keeps the whole
memory legible.
-/
namespace WordMachine

open Numeric Source

/-! ## Words of a program -/

namespace Word

/-- Only the bits of a text can be without a character. -/
theorem legible_of_tag {w : Word} (other : w.tag ≠ .text) : w.Legible :=
  fun text => absurd text other

theorem legible_zero : zero.Legible :=
  legible_of_tag (by decide)

theorem legible_of_ofNumber {n : Number} {w : Word} (made : ofNumber n = .ok w) : w.Legible := by
  cases n with
  | integer n =>
    obtain ⟨bits, -, rfl⟩ := map_eq_ok_iff.mp made
    exact legible_of_tag (by simp)
  | real x =>
    obtain ⟨bits, -, rfl⟩ := map_eq_ok_iff.mp made
    exact legible_of_tag (by simp)

/-- Characters of the set are packed into a text that can be read. -/
theorem legible_of_ofText {text : String} {w : Word} (made : ofText text = .ok w) : w.Legible := by
  obtain ⟨bits, packed, rfl⟩ := map_eq_ok_iff.mp made
  intro _
  unfold packText at packed
  split at packed
  · cases packed
  next short =>
    split at packed
    · cases packed
    next clean =>
      cases packed
      have supported := Charset.supports_of_unsupported? clean
      exact Charset.isSome_of_map_char? (Charset.map_char?_pack (not_lt.mp short) supported)

end Word

theorem Source.Constant.legible_stored (c : Constant) : c.stored.Legible := by
  cases made : c.word with
  | error e => simpa [stored, made, Except.toOption] using Word.legible_zero
  | ok w =>
    rw [show c.stored = w by simp [stored, made, Except.toOption]]
    cases c with
    | integer n => exact @Word.legible_of_ofNumber (.integer n) w made
    | real x => exact @Word.legible_of_ofNumber (.real x) w made
    | text s => exact Word.legible_of_ofText made

theorem Encoding.legible_content {settings : AssemblySettings} {l : Layout} {line : Line} {c : Content}
    {w : Word} (encoded : content settings l line c = .ok w) : w.Legible := by
  cases c with
  | constant c =>
    cases encoded
    exact c.legible_stored
  | statement s =>
    obtain ⟨place, -, encoded⟩ := bind_eq_ok_iff.mp (mapError_eq_ok_iff.mp encoded)
    obtain ⟨address, -, encoded⟩ := bind_eq_ok_iff.mp encoded
    obtain ⟨i, -, encoded⟩ := bind_eq_ok_iff.mp encoded
    cases encoded
    exact Word.legible_of_tag (by simp [Instruction.encode])

/-- Every word of the image of a program that is assembled is legible. -/
theorem legible_image {asm : Assembler} {source file : String} {a : Assembly}
    (assembled : (asm.assemble source file).value.2 = .ok a) : ∀ entry ∈ a.image, entry.2.Legible := by
  obtain ⟨parsed, read, -, made, -⟩ := generate_of_assemble assembled
  have admitted := fun line member => (isParsed_of_parseSource read line member).admitted
  obtain ⟨-, rfl⟩ := assembled_of_ok admitted made
  intro entry member
  rcases List.mem_append.mp member with literal | word
  · obtain ⟨i, low, rfl⟩ := List.mem_mapIdx.mp literal
    exact Constant.legible_stored _
  · obtain ⟨x, listed, rfl⟩ := List.mem_map.mp word
    obtain ⟨line, here, -, inside⟩ := mem_words_assembled.mp listed
    obtain ⟨c, w, -, encoded, rfl⟩ := mem_wordsOf.mp inside
    exact Encoding.legible_content encoded

/-! ## Memories -/

def Memory.Legible (m : Memory) : Prop :=
  ∀ location, (m.get location).Legible

namespace Memory

theorem Legible.set {m : Memory} (legible : m.Legible) {w : Word} (word : w.Legible) (location : Nat) :
    (m.set location w).Legible := by
  intro n
  by_cases same : location = n
  · subst same
    by_cases inside : location < m.size
    · rw [get_set_self inside]
      exact word
    · have outside : (m.set location w).get location = Word.zero := by
        simp only [size] at inside
        simp [get, Memory.set, Array.getD_eq_getD_getElem?, inside]
      rw [outside]
      exact Word.legible_zero
  · rw [get_set_ne m same]
    exact legible n

theorem Legible.foldlM_write {entries : List (Int × Word)} {m after : Memory} (legible : m.Legible)
    (words : ∀ entry ∈ entries, entry.2.Legible)
    (written : entries.foldlM (fun (m : Memory) (location, w) => m.write location w) m = .ok after) :
    after.Legible := by
  induction entries generalizing m with
  | nil =>
    cases written
    exact legible
  | cons entry rest ih =>
    obtain ⟨next, first, others⟩ := bind_eq_ok_iff.mp written
    obtain ⟨n, -, rfl⟩ := map_eq_ok_iff.mp first
    rw [List.forall_mem_cons] at words
    exact ih (legible.set words.1 n) words.2 others

end Memory

namespace Machine

/-- A program brings no word that cannot be shown. -/
theorem legible_loadMemory {a : Assembly} {size : Int} {m : Memory} (words : ∀ entry ∈ a.image, entry.2.Legible)
    (loaded : loadMemory a size = .ok m) : m.Legible := by
  unfold loadMemory at loaded
  cases made : Memory.blank? size with
  | none =>
    rw [made] at loaded
    cases loaded
  | some blank =>
    rw [made] at loaded
    have zero : blank.Legible := fun n => by
      rw [(Memory.get_blank made).2 n]
      exact Word.legible_zero
    exact zero.foldlM_write words (mapError_eq_ok_iff.mp loaded)

/-- What an instruction writes can be shown, but for those that rearrange bits. -/
theorem Written.legible {m : Machine} {i : Instruction} {w : Word} (written : m.Written i w)
    (legible : m.memory.Legible) (plain : i.mnemonic.rearranges = false) : w.Legible := by
  cases written with
  | number made => exact Word.legible_of_ofNumber made
  | copied location => exact legible location
  | rearranged location bits allowed =>
    rw [plain] at allowed
    cases allowed

/-- An instruction that does not rearrange bits keeps the memory legible. -/
theorem legible_complete {m : Machine} {i : Instruction} {supply : Supply} {e : Effect} {name : String}
    (executed : m.execute i = (supply, .ok e)) (legible : m.memory.Legible)
    (plain : i.mnemonic.rearranges = false) : ((m.withSupply supply).complete name e).memory.Legible := by
  cases wrote : e.write with
  | none => simpa [complete, apply, wrote] using legible
  | some entry =>
    have word := ((execute_does executed).written wrote).legible legible plain
    simpa [complete, apply, wrote] using legible.set word entry.1

end Machine

end WordMachine
