import WordMachine.Proofs.Charset.Codes
import WordMachine.Word

/-!
# Texts as words and back

A text is cut into pieces of four characters, and each piece is packed into a word of its own. The characters of the
words, one after the other, are those of the text with null characters at the end (`chars_encode`), and words whose
codes all stand for characters are those of their text but for empty ones at the end (`encode_decode`). What cannot be
written or read is reported with its position in the whole text.
-/
namespace WordMachine.Charset

/-- The codes of a list of words, one after the other. -/
def codesOf (words : List Word) : List Nat :=
  words.flatMap fun w => codes w.bits

/-! ## Padding at the end -/

section

variable {α : Type} {p : α → Bool} {xs ys : List α}

/-- What is dropped at the end of two lists is dropped at the end of the second one, and then of the first one if
nothing of the second one is left. -/
theorem rdropWhile_append (xs ys : List α) :
    (xs ++ ys).rdropWhile p = if ys.rdropWhile p = [] then xs.rdropWhile p else xs ++ ys.rdropWhile p := by
  simp only [List.rdropWhile, List.reverse_append, List.dropWhile_append, List.isEmpty_iff, List.reverse_eq_nil_iff]
  split <;> simp

/-- What was dropped at the end can be filled in again. -/
theorem rdropWhile_fill [BEq α] [LawfulBEq α] (x : α) (xs : List α) :
    xs.rdropWhile (· == x) ++ List.replicate (xs.length - (xs.rdropWhile (· == x)).length) x = xs := by
  induction xs using List.reverseRecOn with
  | nil => rfl
  | append_singleton xs y ih =>
    rw [List.rdropWhile_concat]
    split
    next same =>
      have shorter : (xs.rdropWhile (· == x)).length ≤ xs.length := (List.rdropWhile_prefix _ _).length_le
      rw [List.length_append, List.length_singleton, Nat.succ_sub shorter, List.replicate_succ', ← List.append_assoc,
        ih, eq_of_beq same]
    · rw [Nat.sub_self, List.replicate_zero, List.append_nil]

end

/-! ## Pieces -/

theorem chunks_nil : chunks [] = [] := by
  rw [chunks]
  rfl

/-- A piece of four characters is followed by the pieces of the rest. -/
theorem chunks_append {piece : List Char} (four : piece.length = charsPerWord) (rest : List Char) :
    chunks (piece ++ rest) = piece :: chunks rest := by
  rw [chunks]
  cases rest with
  | nil =>
    have filled : piece.isEmpty = false := by
      cases piece with
      | nil => cases four
      | cons => rfl
    rw [List.append_nil, if_pos four.le, filled, if_neg Bool.false_ne_true, chunks_nil]
  | cons c rest =>
    have long : ¬ (piece ++ c :: rest).length ≤ charsPerWord := by
      rw [List.length_append, four, List.length_cons]
      omega
    rw [if_neg long, ← four, List.take_left, List.drop_left]

theorem chunks_short {text : List Char} (short : text.length ≤ charsPerWord) (filled : text ≠ []) :
    chunks text = [text] := by
  rw [chunks, if_pos short, if_neg]
  simpa using filled

/-- The pieces of a text have at most four characters each, and together they are the text with its padding. -/
theorem chunks_spec (text : List Char) :
    (chunks text).length = (text.length + 3) / 4 ∧ (∀ piece ∈ chunks text, piece.length ≤ charsPerWord) ∧
      ∃ k, (chunks text).flatMap padded = text ++ List.replicate k '\x00' := by
  induction text using chunks.induct with
  | case1 text short empty =>
    rw [List.isEmpty_iff] at empty
    subst empty
    rw [chunks_nil]
    exact ⟨rfl, nofun, 0, rfl⟩
  | case2 text short unempty =>
    have filled : text ≠ [] := by simpa using unempty
    have least := List.length_pos_iff.mpr filled
    rw [chunks_short short filled]
    rw [charsPerWord] at short
    refine ⟨?_, fun piece member => List.mem_singleton.mp member ▸ short, charsPerWord - text.length, ?_⟩
    · rw [List.length_singleton]
      omega
    · exact List.flatMap_singleton padded text
  | case3 text long ih =>
    have four : (text.take charsPerWord).length = charsPerWord := List.length_take_of_le (Nat.le_of_not_le long)
    obtain ⟨length, short, k, together⟩ := ih
    have pieces := chunks_append four (text.drop charsPerWord)
    rw [List.take_append_drop] at pieces
    rw [pieces]
    refine ⟨?_, List.forall_mem_cons.mpr ⟨four.le, short⟩, k, ?_⟩
    · rw [List.length_cons, length, List.length_drop]
      rw [charsPerWord] at long ⊢
      omega
    · rw [List.flatMap_cons, together, padded, four, Nat.sub_self, List.replicate_zero, List.append_nil,
        ← List.append_assoc, List.take_append_drop]

/-! ## Reading words -/

section

variable {words : List Word} {offset : Int}

theorem decodeWords_cons {w : Word} (text : w.tag = .text) :
    decodeWords (w :: words) offset = (do
      let here ← (decodeCodes (codes w.bits) offset).mapError .charset
      (here ++ ·) <$> decodeWords words (offset + charsPerWord)) := by
  rw [decodeWords, Word.textBits, if_pos text]
  cases decodeWords words (offset + charsPerWord) <;> rfl

/-- Text words whose codes all stand for characters are read as these characters. -/
theorem exists_decodeWords (texts : ∀ w ∈ words, w.tag = .text)
    (mapped : ∀ code ∈ codesOf words, (char? code).isSome = true) (offset : Int) :
    ∃ text, decodeWords words offset = .ok text ∧ (codesOf words).map char? = text.map some := by
  induction words generalizing offset with
  | nil => exact ⟨[], rfl, rfl⟩
  | cons w rest ih =>
    rw [List.forall_mem_cons] at texts
    simp only [codesOf, List.flatMap_cons, List.forall_mem_append] at mapped
    obtain ⟨here, read⟩ := (@exists_decodeCodes_iff (codes w.bits) offset).mpr mapped.1
    obtain ⟨others, decoded, stand⟩ := ih texts.2 mapped.2 (offset + charsPerWord)
    refine ⟨here ++ others, ?_, ?_⟩
    · rw [decodeWords_cons texts.1, read, decoded]
      rfl
    · simp only [codesOf, List.flatMap_cons, List.map_append] at stand ⊢
      rw [map_char?_of_decodeCodes read, stand]

/-- The first code without a character is reported, if all words up to it are texts. -/
theorem decodeWords_unmapped {k : Nat} {w : Word} (found : words[k]? = some w)
    (texts : ∀ v ∈ words.take (k + 1), v.tag = .text) (unmapped : ∃ code ∈ codes w.bits, char? code = none)
    (offset : Int) :
    ∃ position code, IsFirst (fun code => char? code = none) (codesOf words) position code ∧
      decodeWords words offset = .error (.charset (.unmapped code (offset + position))) := by
  induction words generalizing k offset with
  | nil => cases found
  | cons v rest ih =>
    rw [List.take_succ_cons, List.forall_mem_cons] at texts
    cases read : decodeCodes (codes v.bits) offset with
    | error e =>
      obtain ⟨position, code, first, rfl⟩ := isFirst_of_decodeCodes read
      refine ⟨position, code, first.append _, ?_⟩
      rw [decodeWords_cons texts.1, read]
      rfl
    | ok here =>
      -- This word is read, so it is not the one with the code, and the code is counted from the rest.
      have mapped : ∀ code ∈ codes v.bits, ¬ char? code = none := fun code member =>
        Option.isSome_iff_ne_none.mp (exists_decodeCodes_iff.mp ⟨here, read⟩ code member)
      cases k with
      | zero =>
        cases found
        obtain ⟨code, member, none⟩ := unmapped
        exact absurd none (mapped code member)
      | succ k =>
        obtain ⟨position, code, first, refused⟩ := ih found texts.2 (offset + charsPerWord)
        refine ⟨(codes v.bits).length + position, code, first.after mapped, ?_⟩
        have here : offset + charsPerWord + position = offset + ((codes v.bits).length + position : Nat) := by
          rw [Nat.cast_add, ← add_assoc]
          rfl
        rw [decodeWords_cons texts.1, read, refused, here]
        rfl

end

/-! ## From texts to words and back -/

def wordOf (piece : List Char) : Word :=
  ⟨.text, pack piece⟩

theorem encode_of_supports {text : String} (supported : ∀ c ∈ text.toList, supports c = true) :
    encode text = .ok ((chunks text.toList).map wordOf) := by
  rw [encode, unsupported?_eq_none supported]
  rfl

/-- The characters of the words of a text are those of the text, with null characters after them. -/
theorem chars_encode {text : List Char} (supported : ∀ c ∈ text, supports c = true) :
    ∃ k, (codesOf ((chunks text).map wordOf)).map char? = (text ++ List.replicate k '\x00').map some := by
  obtain ⟨-, short, k, together⟩ := chunks_spec text
  have member (piece) (listed : piece ∈ chunks text) : ∀ c ∈ piece, supports c = true := by
    intro c inside
    have among : c ∈ (chunks text).flatMap padded :=
      List.mem_flatMap.mpr ⟨piece, listed, List.mem_append_left _ inside⟩
    exact supports_append_null supported k c (together ▸ among)
  refine ⟨k, ?_⟩
  rw [codesOf, List.flatMap_map, List.map_flatMap, ← together, List.map_flatMap]
  exact List.flatMap_congr fun piece listed => map_char?_pack (short piece listed) (member piece listed)

/-- A text of supported characters has a word for each four of them, and these words are read as the text without the
null characters at its end. -/
theorem decode_encode {text : String} (supported : ∀ c ∈ text.toList, supports c = true) :
    ∃ words, encode text = .ok words ∧ words.length = (text.length + 3) / 4 ∧ (∀ w ∈ words, w.tag = .text) ∧
      decode words = .ok (String.ofList (text.toList.rdropWhile (· == '\x00'))) := by
  obtain ⟨k, stand⟩ := chars_encode supported
  have texts : ∀ w ∈ (chunks text.toList).map wordOf, w.tag = .text := by
    intro w member
    obtain ⟨piece, -, rfl⟩ := List.mem_map.mp member
    rfl
  obtain ⟨read, decoded, same⟩ := exists_decodeWords texts (isSome_of_map_char? stand) 0
  refine ⟨_, encode_of_supports supported, ?_, texts, ?_⟩
  · rw [List.length_map, (chunks_spec _).1, String.length_toList]
  · have chars : read = text.toList ++ List.replicate k '\x00' :=
      List.map_injective_iff.mpr (Option.some_injective _) (same.symm.trans stand)
    have padding : (List.replicate k '\x00').rdropWhile (· == '\x00') = [] := by
      simp [List.rdropWhile_eq_nil_iff]
    have dropped : dropPadding read = text.toList.rdropWhile (· == '\x00') := by
      rw [chars]
      exact (rdropWhile_append _ _).trans (if_pos padding)
    rw [decode, decoded, ← dropped]
    rfl

/-- The first character that is not supported is reported. -/
theorem encode_unsupported {text : String} (unsupported : ∃ c ∈ text.toList, supports c = false) :
    ∃ position c, IsFirst (fun c => supports c = false) text.toList position c ∧
      encode text = .error (.unsupported c.toString position) := by
  rw [encode]
  cases found : unsupported? text.toList 0 with
  | none =>
    obtain ⟨c, member, outside⟩ := unsupported
    rw [supports_of_unsupported? found c member] at outside
    cases outside
  | some e =>
    obtain ⟨position, c, first, rfl⟩ := isFirst_of_unsupported? found
    exact ⟨position, c, first, by rw [zero_add]⟩

/-! ## From words to texts and back -/

section

variable {words : List Word} {w : Word} {text : List Char}

theorem supports_of_map_char? (stand : (codesOf words).map char? = text.map some) :
    ∀ c ∈ text, supports c = true := by
  intro c member
  have listed : some c ∈ text.map some := List.mem_map_of_mem member
  rw [← stand] at listed
  obtain ⟨code, inside, found⟩ := List.mem_map.mp listed
  obtain ⟨w, -, mine⟩ := List.mem_flatMap.mp inside
  rw [supports, code?_of_char? (lt_of_mem_codes mine) found, Option.isSome_some]

theorem wordOf_of_map_char? (tagged : w.tag = .text) (stand : (codes w.bits).map char? = text.map some) :
    wordOf text = w := by
  rw [wordOf, pack_of_map_char? stand, ← tagged]

/-- Without the null characters at its end, the last piece is packed into the same word, or there is none left. -/
theorem map_wordOf_last (tagged : w.tag = .text) (stand : (codes w.bits).map char? = text.map some) :
    (chunks (text.rdropWhile (· == '\x00'))).map wordOf = [w].rdropWhile (·.bits == 0) := by
  have four := length_of_map_char? stand
  have packed : wordOf (text.rdropWhile (· == '\x00')) = w := by
    have filled : padded (text.rdropWhile (· == '\x00')) = text := by
      rw [padded, ← four]
      exact rdropWhile_fill '\x00' text
    have whole : padded text = text := by rw [padded, four, Nat.sub_self, List.replicate_zero, List.append_nil]
    have same : pack (text.rdropWhile (· == '\x00')) = pack text :=
      congrArg (fun chars => BitVec.ofNat 24 (packCodes chars)) (filled.trans whole.symm)
    rw [← wordOf_of_map_char? tagged stand, wordOf, wordOf, same]
  rw [List.rdropWhile_singleton]
  by_cases gone : text.rdropWhile (· == '\x00') = []
  · have empty : w.bits = 0 := by
      rw [← packed, gone]
      rfl
    rw [gone, empty, if_pos (beq_self_eq_true _), chunks_nil, List.map_nil]
  · have kept : ¬ (w.bits == 0) = true := by
      intro zero
      refine gone (List.rdropWhile_eq_nil_iff.mpr fun c member => ?_)
      rw [eq_of_beq zero] at stand
      have listed : some c ∈ text.map some := List.mem_map_of_mem member
      rw [← stand] at listed
      have null : ∀ x ∈ (codes 0).map char?, x = some '\x00' := by decide
      rw [Option.some.inj (null _ listed), beq_self_eq_true]
    rw [if_neg kept, chunks_short (four ▸ (List.rdropWhile_prefix _ _).length_le) gone, List.map_singleton, packed]

/-- Text words are packed again from their characters, but for empty ones at the end. -/
theorem map_wordOf_chunks (texts : ∀ w ∈ words, w.tag = .text)
    (stand : (codesOf words).map char? = text.map some) :
    (chunks (text.rdropWhile (· == '\x00'))).map wordOf = words.rdropWhile (·.bits == 0) := by
  induction words generalizing text with
  | nil =>
    have empty : text = [] := by simpa [codesOf] using stand.symm
    rw [empty, List.rdropWhile_nil, List.rdropWhile_nil, chunks_nil, List.map_nil]
  | cons w rest ih =>
    rw [List.forall_mem_cons] at texts
    simp only [codesOf, List.flatMap_cons, List.map_append] at stand
    obtain ⟨piece, others, rfl, first, second⟩ := List.map_eq_append_iff.mp stand.symm
    have again := ih texts.2 second.symm
    rw [← List.singleton_append, rdropWhile_append, rdropWhile_append, ← again]
    -- Null characters are dropped from this word only if nothing of the rest is left.
    by_cases gone : others.rdropWhile (· == '\x00') = []
    · rw [if_pos gone, gone, chunks_nil, List.map_nil, if_pos rfl]
      exact map_wordOf_last texts.1 first.symm
    · have four := length_of_map_char? first.symm
      have kept : (chunks (others.rdropWhile (· == '\x00'))).map wordOf ≠ [] := by
        have least := List.length_pos_iff.mpr gone
        rw [← List.length_pos_iff, List.length_map, (chunks_spec _).1]
        omega
      rw [if_neg gone, if_neg kept, chunks_append four, List.map_cons, wordOf_of_map_char? texts.1 first.symm,
        List.singleton_append]

/-- Words whose codes all stand for characters are those of their text, but for the words of null characters at their
end. -/
theorem encode_decode (texts : ∀ w ∈ words, w.tag = .text)
    (mapped : ∀ w ∈ words, ∀ code ∈ codes w.bits, (char? code).isSome = true) :
    ∃ text, decode words = .ok text ∧ encode text = .ok (words.rdropWhile (·.bits == 0)) := by
  have all : ∀ code ∈ codesOf words, (char? code).isSome = true := by
    intro code member
    obtain ⟨w, listed, inside⟩ := List.mem_flatMap.mp member
    exact mapped w listed code inside
  obtain ⟨read, decoded, stand⟩ := exists_decodeWords texts all 0
  refine ⟨String.ofList (read.rdropWhile (· == '\x00')), ?_, ?_⟩
  · rw [decode, decoded]
    rfl
  · have supported : ∀ c ∈ (String.ofList (read.rdropWhile (· == '\x00'))).toList, supports c = true := by
      rw [String.toList_ofList]
      exact fun c member => supports_of_map_char? stand c ((List.rdropWhile_prefix _ _).subset member)
    rw [encode_of_supports supported, String.toList_ofList, map_wordOf_chunks texts stand]

/-- One word is read as it is unpacked. -/
theorem decode_singleton (w : Word) :
    decode [w] = if w.tag = .text then (unpack w.bits 0).mapError .charset
      else .error (.mismatch "string data" w.tag.describe) := by
  split
  next tagged =>
    rw [decode, decodeWords_cons tagged, unpack]
    cases decodeCodes (codes w.bits) 0 with
    | error => rfl
    | ok text =>
      change Except.ok (String.ofList (dropPadding (text ++ []))) = Except.ok (String.ofList (dropPadding text))
      rw [List.append_nil]
  next other =>
    rw [decode, decodeWords, Word.textBits, if_neg other]
    rfl

end

/-- Texts and words are turned into each other without loss but for null characters at the end, and what cannot be
turned is reported with the position of the first character or code that stands in the way. -/
theorem text_codec :
    (∀ text : String, (∀ c ∈ text.toList, supports c = true) →
      ∃ words, encode text = .ok words ∧ words.length = (text.length + 3) / 4 ∧ (∀ w ∈ words, w.tag = .text) ∧
        decode words = .ok (String.ofList (text.toList.rdropWhile (· == '\x00')))) ∧
    (∀ text : String, (∃ c ∈ text.toList, supports c = false) →
      ∃ position c, IsFirst (fun c => supports c = false) text.toList position c ∧
        encode text = .error (.unsupported c.toString position)) ∧
    (∀ words : List Word, (∀ w ∈ words, w.tag = .text) →
      (∀ w ∈ words, ∀ code ∈ codes w.bits, (char? code).isSome = true) →
      ∃ text, decode words = .ok text ∧ encode text = .ok (words.rdropWhile (·.bits == 0))) ∧
    (∀ (words : List Word) (k : Nat) (w : Word), words[k]? = some w → (∀ v ∈ words.take (k + 1), v.tag = .text) →
      (∃ code ∈ codes w.bits, char? code = none) →
      ∃ position code, IsFirst (fun code => char? code = none) (codesOf words) position code ∧
        decode words = .error (.charset (.unmapped code position))) ∧
    (∀ w : Word, decode [w] = if w.tag = .text then (unpack w.bits 0).mapError .charset
      else .error (.mismatch "string data" w.tag.describe)) := by
  refine ⟨fun _ => decode_encode, fun _ => encode_unsupported, fun _ => encode_decode,
    fun words k w found texts unmapped => ?_, decode_singleton⟩
  obtain ⟨position, code, first, refused⟩ := decodeWords_unmapped found texts unmapped 0
  rw [zero_add] at refused
  refine ⟨position, code, first, ?_⟩
  rw [decode, refused]
  rfl

/-- Null characters inside a text stay, also where a word ends with them. -/
theorem text_codec_nulls :
    (∃ words, encode "A\x00B\x00C\x00\x00" = .ok words ∧ words.length = 2 ∧ decode words = .ok "A\x00B\x00C") ∧
    (∃ position c, IsFirst (fun c => supports c = false) "HELLO!".toList position c ∧
      encode "HELLO!" = .error (.unsupported c.toString position)) ∧
    (∃ text, decode [⟨.text, 0o01000000⟩, ⟨.text, 0⟩] = .ok text ∧ encode text = .ok [⟨.text, 0o01000000⟩]) ∧
    (∃ position code,
      IsFirst (fun code => char? code = none) (codesOf [⟨.text, 0⟩, ⟨.text, 0o00770000⟩]) position code ∧
      decode [⟨.text, 0⟩, ⟨.text, 0o00770000⟩] = .error (.charset (.unmapped code position))) := by
  obtain ⟨reads, reports, packs, refuses, -⟩ := text_codec
  refine ⟨?_, reports _ ⟨'!', by decide, by decide⟩, ?_, refuses _ 1 _ rfl (by decide) ⟨63, by decide, by decide⟩⟩
  · obtain ⟨words, encoded, length, -, decoded⟩ := reads "A\x00B\x00C\x00\x00" (List.all_eq_true.mp rfl)
    exact ⟨words, encoded, length, decoded⟩
  · exact packs [⟨.text, 0o01000000⟩, ⟨.text, 0⟩] (by decide) (by decide)

end WordMachine.Charset
