import WordMachine.Proofs.Legacy.Words

/-!
# Lines of the legacy dialect written and read again

The parser reads each operand up to what follows it. A digit two is an accumulator only before a blank, and an operand
has no blanks inside; so an address that starts with that digit is never taken for an accumulator, and a line is read
back from its text.
-/
namespace WordMachine.Legacy

open Source Source.Token Text

/-! ## Reading operands -/

section

variable {column : Nat} {gap : Bool} {more : List Piece}

theorem kind_current_tokensOf {kind : TokenKind} (other : ∀ p ∈ more.head?, p.kind ≠ kind)
    (inside : kind ≠ .endOfLine) : (current (tokensOf column more)).kind ≠ kind := by
  cases more with
  | nil => exact inside.symm
  | cons p more => exact other p rfl

/-- An address is read up to what follows it, which must not be a plus. -/
theorem simpleAddress_eq (a : SimpleAddress) (plusless : ∀ p ∈ more.head?, p.kind ≠ .plus) :
    LineParser.simpleAddress (tokensOf column (a.pieces gap ++ more)) =
      .ok (a, tokensOf (columnAfter column (a.pieces gap)) more) := by
  have next (column : Nat) : (current (tokensOf column more)).kind ≠ .plus := kind_current_tokensOf plusless nofun
  cases a with
  | mk target indirect =>
    cases target <;> cases indirect <;>
      simp [LineParser.simpleAddress, SimpleAddress.pieces, Target.pieces, Piece.number, Piece.token, next]

theorem index_eq {n : Nat} (short : IsIndex n) (column : Nat) : LineParser.index (tokensOf column (indexPieces n)) =
    .ok (n, tokensOf (columnAfter column (indexPieces n)) []) := by
  have small : n < 10 ^ 2 := Nat.lt_of_le_of_lt short (by decide)
  have length : ¬ 2 < (Nat.toDigits 10 n).length :=
    Nat.not_lt.mpr ((Nat.length_toDigits_le_iff (by decide) (by decide)).mpr small)
  simp [LineParser.index, indexPieces, Piece.number, Piece.token, length]

theorem plusless_index (n : Nat) : ∀ p ∈ (indexPieces n).head?, p.kind ≠ .plus := by
  simp [indexPieces]

theorem indexedAddress_eq {a : IndexedAddress} (plain : a.Plain) :
    LineParser.indexedAddress (tokensOf column (a.pieces gap)) =
      .ok (a, tokensOf (columnAfter column (a.pieces gap)) []) := by
  cases a with
  | mk address index =>
    cases index with
    | none =>
      have read := @simpleAddress_eq column gap [] address nofun
      rw [List.append_nil] at read
      simp [LineParser.indexedAddress, IndexedAddress.pieces, read, bind, Except.bind, pure, Except.pure]
    | some n =>
      have simple := @simpleAddress_eq column gap (indexPieces n) address (plusless_index n)
      have index := index_eq (plain.index n rfl) (columnAfter column (address.pieces gap))
      have colon (column : Nat) : (current (tokensOf column (indexPieces n))).kind = .colon ∧
          (current (tokensOf column (indexPieces n))).spaceBefore = false := ⟨rfl, rfl⟩
      simp [LineParser.indexedAddress, IndexedAddress.pieces, simple, index, colon, bind, Except.bind, pure,
        Except.pure]

theorem fitting_of_fits {n : Int} (fits : Word.fits n) (column : Nat) :
    fitting (.integer n) column = .ok (.integer n) := by
  simp [fitting, Word.ofNumber, Word.ofInteger, StoredInteger.encode, fits]

theorem textContent_of_plain {s : String} (plain : (Constant.text s).Plain) (column : Nat) :
    LineParser.textContent s column = .ok s := by
  obtain ⟨some, short, characters⟩ := plain
  have allowed : s.toList.find? (fun c => !LineParser.textCharacters.contains c) = none := by
    rw [List.find?_eq_none]
    intro c member
    simpa using (characters c member).1
  have length : ¬ (s.length = 0 ∨ Charset.charsPerWord < s.length) := by omega
  simp only [LineParser.textContent, if_neg length, allowed]

/-- A sign and the number that it touches. -/
theorem signedNumber?_eq (n : Int) : signedNumber? (tokensOf column (Constant.pieces gap (.integer n) ++ more)) =
    some (.integer n, (current (tokensOf column [Piece.sign gap n])).column,
      tokensOf (columnAfter column (Constant.pieces gap (.integer n))) more) := by
  by_cases positive : 0 ≤ n
  · have size : |n| = n := abs_of_nonneg positive
    simp [signedNumber?, Constant.pieces, Piece.sign, Piece.number, Piece.token, positive, size]
  · have size : |n| = -n := abs_of_neg (Int.not_le.mp positive)
    simp [signedNumber?, Constant.pieces, Piece.sign, Piece.number, Piece.token, positive, size]

/-- The pieces of a constant are read as the constant. -/
theorem constant?_eq_some {c : Constant} (plain : c.Plain) :
    LineParser.constant? (tokensOf column (c.pieces gap ++ more)) =
      .ok (some (c, tokensOf (columnAfter column (c.pieces gap)) more)) := by
  cases c with
  | real x => exact plain.elim
  | text s =>
    simp [LineParser.constant?, Constant.pieces, Piece.token, textContent_of_plain plain, bind, Except.bind, pure,
      Except.pure]
  | octal w => simp [LineParser.constant?, Constant.pieces, Piece.token]
  | integer n =>
    have signed := @signedNumber?_eq column gap more n
    have kind : (current (tokensOf column (Constant.pieces gap (.integer n) ++ more))).kind = .plus ∨
        (current (tokensOf column (Constant.pieces gap (.integer n) ++ more))).kind = .minus := by
      by_cases positive : 0 ≤ n <;> simp [Constant.pieces, Piece.sign, Piece.token, positive]
    unfold LineParser.constant?
    rcases kind with here | here <;>
      simp only [here, signed, fitting_of_fits plain, Constant.ofNumber, bind, Except.bind, pure, Except.pure]

/-- An address is not taken for a constant. -/
theorem constant?_eq_none (a : SimpleAddress) :
    LineParser.constant? (tokensOf column (a.pieces gap ++ more)) = .ok none := by
  have kind : (current (tokensOf column (a.pieces gap ++ more))).kind = .star ∨
      (∃ name, (current (tokensOf column (a.pieces gap ++ more))).kind = .identifier name) ∨
      ∃ n, (current (tokensOf column (a.pieces gap ++ more))).kind = .number n := by
    cases a with
    | mk target indirect =>
      cases target <;> cases indirect <;> simp [SimpleAddress.pieces, Target.pieces, Piece.number, Piece.token]
  have unsigned : signedNumber? (tokensOf column (a.pieces gap ++ more)) = none := by
    apply signedNumber?_eq_none
    rcases kind with here | ⟨_, here⟩ | ⟨_, here⟩ <;> simp [here]
  unfold LineParser.constant?
  rcases kind with here | ⟨_, here⟩ | ⟨_, here⟩ <;> simp only [here, unsigned]

/-- Where nothing but the first piece has a blank before it, there is no accumulator. -/
theorem accumulator_eq {pieces : List Piece} (joined : ∀ p ∈ pieces.tail, p.gap = false) :
    LineParser.accumulator (tokensOf column pieces) = (none, tokensOf column pieces) := by
  have touching : (second (tokensOf column pieces)).spaceBefore = false := by
    match pieces with
    | [] => rfl
    | [p] => rfl
    | p :: q :: more => simpa [Piece.token] using joined q
  unfold LineParser.accumulator
  dsimp only
  split
  · rfl
  · simp [touching]
  · rfl

/-- The pieces of an operand are read as the operand. -/
theorem operand_eq {o : Operand} (plain : o.Plain) : LineParser.operand (tokensOf column (o.pieces gap)) =
    .ok (o, tokensOf (columnAfter column (o.pieces gap)) []) := by
  cases o with
  | address a =>
    have unsigned : LineParser.constant? (tokensOf column (a.pieces gap)) = .ok none :=
      constant?_eq_none a.address
    simp [LineParser.operand, Operand.pieces, unsigned, indexedAddress_eq plain, bind, Except.bind, pure, Except.pure]
  | constant c =>
    have read := @constant?_eq_some column gap [] c plain
    rw [List.append_nil] at read
    simp [LineParser.operand, Operand.pieces, read, bind, Except.bind, pure, Except.pure]

theorem loadOperand_eq {o : LoadOperand} (plain : o.Plain) (plusless : ∀ p ∈ more.head?, p.kind ≠ .plus) :
    LineParser.loadOperand (tokensOf column (o.pieces gap ++ more)) =
      .ok (o, tokensOf (columnAfter column (o.pieces gap)) more) := by
  cases o with
  | address a =>
    simp [LineParser.loadOperand, LoadOperand.pieces, constant?_eq_none, simpleAddress_eq a plusless, bind, Except.bind,
      pure, Except.pure]
  | constant c =>
    simp [LineParser.loadOperand, LoadOperand.pieces, constant?_eq_some (show c.Plain from plain), bind, Except.bind,
      pure, Except.pure]

end

/-! ## Reading words -/

section

variable {column : Nat} {more : List Piece}

/-- Only the first piece of an operand has a blank before it. -/
theorem joined_simpleAddress (a : SimpleAddress) (touching : ∀ p ∈ more, p.gap = false) :
    ∀ p ∈ (a.pieces true ++ more).tail, p.gap = false := by
  cases a with
  | mk target indirect =>
    cases target <;> cases indirect <;> simpa [SimpleAddress.pieces, Target.pieces, Piece.number] using touching

theorem joined_constant {c : Constant} (plain : c.Plain) (touching : ∀ p ∈ more, p.gap = false) :
    ∀ p ∈ (c.pieces true ++ more).tail, p.gap = false := by
  cases c with
  | real x => exact plain.elim
  | _ => simpa [Constant.pieces, Piece.number] using touching

theorem joined_index (n : Nat) : ∀ p ∈ indexPieces n, p.gap = false := by
  simp [indexPieces, Piece.number]

theorem joined_address (a : IndexedAddress) : ∀ p ∈ (a.pieces true).tail, p.gap = false := by
  apply joined_simpleAddress
  cases a.index with
  | none => exact nofun
  | some n => exact joined_index n

theorem joined_operand {o : Operand} (plain : o.Plain) : ∀ p ∈ (o.pieces true).tail, p.gap = false := by
  cases o with
  | address a => exact joined_address a
  | constant c =>
    have joined := @joined_constant [] c plain nofun
    rwa [List.append_nil] at joined

theorem joined_loadOperand {o : LoadOperand} (plain : o.Plain) (n : Nat) :
    ∀ p ∈ (o.pieces true ++ indexPieces n).tail, p.gap = false := by
  cases o with
  | address a => exact joined_simpleAddress a (joined_index n)
  | constant c => exact joined_constant plain (joined_index n)

/-- The accumulator is read from the mnemonic alone. -/
theorem accumulator_suffix {acc : Option Nat} (joined : ∀ p ∈ more.tail, p.gap = false) :
    (if acc.isSome then (acc, tokensOf column more) else LineParser.accumulator (tokensOf column more)) =
      (acc, tokensOf column more) := by
  cases acc with
  | none => exact accumulator_eq joined
  | some n => rfl

/-- A word that starts with a mnemonic is an instruction. -/
theorem content_of_mnemonic (m : String) (acc : Option Nat) :
    LineParser.content (tokensOf column (.mnemonic m acc :: more)) =
      LineParser.instruction (m ++ suffix acc) (tokensOf column (.mnemonic m acc :: more)) :=
  rfl

/-- The pieces of a word are read as the word. -/
theorem content_eq {c : Content} (plain : c.Plain) :
    LineParser.content (tokensOf column c.pieces) = .ok (c, tokensOf (columnAfter column c.pieces) []) := by
  cases c with
  | real x => exact plain.elim
  | integer n =>
    by_cases positive : 0 ≤ n
    · have size : |n| = n := abs_of_nonneg positive
      simp [LineParser.content, Content.pieces, positive, Piece.number, Piece.token, LineParser.numberContent, size,
        fitting_of_fits plain, Except.map]
    · have signed := @signedNumber?_eq column true [] n
      have minus : (current (tokensOf column ((Constant.integer n).pieces true))).kind = .minus := by
        simp [Constant.pieces, Piece.sign, Piece.token, positive]
      rw [List.append_nil] at signed
      unfold LineParser.content
      simp only [Content.pieces, if_neg positive, minus, signed, LineParser.numberContent, fitting_of_fits plain,
        Except.map]
  | text s =>
    simp [LineParser.content, Content.pieces, Constant.pieces, Piece.token,
      textContent_of_plain (show (Constant.text s).Plain from plain), Except.map]
  | octal w => simp [LineParser.content, Content.pieces, Constant.pieces, Piece.token]
  | take m acc o =>
    obtain ⟨grouped, known, plain⟩ := plain
    have joined := joined_operand plain
    rw [Content.pieces, content_of_mnemonic, LineParser.instruction]
    simp only [Vocabulary.splitAccumulator_suffix grouped (by simp) known, advance_tokensOf_cons,
      accumulator_suffix joined, grouped, operand_eq plain, columnAfter_cons, bind, Except.bind, pure, Except.pure]
  | put m acc a =>
    obtain ⟨grouped, known, plain⟩ := plain
    have joined := joined_address a
    rw [Content.pieces, content_of_mnemonic, LineParser.instruction]
    simp only [Vocabulary.splitAccumulator_suffix grouped (by simp) known, advance_tokensOf_cons,
      accumulator_suffix joined, grouped, indexedAddress_eq plain, columnAfter_cons, bind, Except.bind, pure,
      Except.pure]
  | loadNumber acc a n =>
    obtain ⟨known, plain, short⟩ := plain
    have grouped : Vocabulary.group? "LDN" = some .loadNumber := rfl
    have joined := joined_simpleAddress a (joined_index n)
    rw [Content.pieces, content_of_mnemonic, LineParser.instruction]
    simp only [Vocabulary.splitAccumulator_suffix grouped (by simp) known, advance_tokensOf_cons,
      accumulator_suffix joined, grouped, simpleAddress_eq a (plusless_index n), index_eq short, columnAfter_cons,
      columnAfter_append, bind, Except.bind, pure, Except.pure]
  | loadRegister acc o n =>
    obtain ⟨known, plain, short⟩ := plain
    have grouped : Vocabulary.group? "LDR" = some .loadRegister := rfl
    have joined := joined_loadOperand plain n
    rw [Content.pieces, content_of_mnemonic, LineParser.instruction]
    simp only [Vocabulary.splitAccumulator_suffix grouped (by simp) known, advance_tokensOf_cons,
      accumulator_suffix joined, grouped, loadOperand_eq plain (plusless_index n), index_eq short, columnAfter_cons,
      columnAfter_append, bind, Except.bind, pure, Except.pure]
  | library m =>
    have grouped : Vocabulary.group? m = some .library := plain
    rw [Content.pieces, content_of_mnemonic, Vocabulary.suffix_none, LineParser.instruction]
    simp only [Vocabulary.splitAccumulator_eq_self grouped, advance_tokensOf_cons, grouped, columnAfter_cons,
      columnAfter_nil]

end

/-! ## The line comes back -/

/-- A word starts with a piece after a blank. -/
theorem head_pieces {c : Content} (plain : c.Plain) :
    ∃ p more, c.pieces = p :: more ∧ p.gap = true ∧ p.kind ≠ .endOfLine := by
  cases c with
  | real x => exact plain.elim
  | integer n =>
    by_cases positive : 0 ≤ n
    · exact ⟨_, _, by rw [Content.pieces, if_pos positive], rfl, by simp [Piece.number]⟩
    · exact ⟨_, _, by rw [Content.pieces, if_neg positive, Constant.pieces], by simp [Piece.sign, positive]⟩
  | _ => exact ⟨_, _, rfl, rfl, by simp [Piece.mnemonic]⟩

/-- The tokens of a location and a word are read as these. -/
theorem parts_eq {c : Content} (plain : c.Plain) (location : Nat) (text : String) :
    LineParser.parts (tokensOf 1 (.number false location :: c.pieces)) text = .ok (location, c, "") := by
  obtain ⟨p, more, pieces, gap, kind⟩ := head_pieces plain
  have read (column : Nat) := @content_eq column c plain
  have next (column : Nat) : (current (tokensOf column c.pieces)).kind ≠ .endOfLine ∧
      (current (tokensOf column c.pieces)).spaceBefore = true := by
    rw [pieces, current_tokensOf_cons]
    exact ⟨kind, gap⟩
  simp [LineParser.parts, Piece.number, Piece.token, next, read, LineParser.comment, bind, Except.bind, pure,
    Except.pure]

/-- The parser reads a line back from its text, without a comment. Only a number with too many digits keeps a line
from being written. -/
theorem parse_writtenLine (location : Nat) {c : Content} (plain : c.Plain) (file : String) (number : Int) :
    ((∃ text, writtenLine? location c = some text) ↔
      isWritable location = true ∧ ∀ n ∈ c.numbers, isWritable n = true) ∧
    ∀ text, writtenLine? location c = some text → Line.parse text file number =
      .ok ⟨.ok (some { number, text, location, content := c, comment := "", file }), []⟩ := by
  have writable_iff : ((location : Int) :: c.numbers).all isWritable = true ↔
      isWritable location = true ∧ ∀ n ∈ c.numbers, isWritable n = true := by
    rw [List.all_eq_true, List.forall_mem_cons]
  constructor
  · rw [← writable_iff, writtenLine?]
    split <;> simp_all
  · intro text written
    obtain ⟨writable, same⟩ := Option.ite_none_right_eq_some.mp written
    cases same
    obtain ⟨fits, others⟩ := writable_iff.mp writable
    have spelled := spelled_content plain others
    have follows : EndsNumeral (charactersOf c.pieces) := by
      rw [spelled.characters]
      exact endsNumeral_cons (by decide)
    have fitted : Fitted (.number false location :: c.pieces) := .cons (.number fits follows) spelled.fitted
    have characters : (toString location ++ " " ++ c.written).toList =
        charactersOf (.number false location :: c.pieces) := by
      simp [Piece.number, spaced_eq, spelled.characters]
    have first : (current (tokensOf 1 (.number false location :: c.pieces))).kind = .number location := rfl
    rw [fitted.parse_eq characters, Line.ofTokens, first]
    simp only [parts_eq plain]

/-- A load without an accumulator, from an address that starts with the number of one. -/
def plainLoad : Content :=
  .loadRegister none (.address ⟨.relative 2, false⟩) 3

/-- The digit two after the name is part of the address here. -/
theorem plainLoad_parse_writtenLine :
    plainLoad.Plain ∧ writtenLine? 10 plainLoad = some "10 LDR 2+:3" ∧
    Line.parse "10 LDR 2+:3" "loads" 1 = .ok ⟨.ok (some
      { number := 1, text := "10 LDR 2+:3", location := 10, content := plainLoad, comment := "", file := "loads" }),
      []⟩ := by
  have plain : plainLoad.Plain := ⟨nofun, nofun, show 3 ≤ 99 by decide⟩
  have written : writtenLine? 10 plainLoad = some "10 LDR 2+:3" := by decide +kernel
  exact ⟨plain, written, (parse_writtenLine 10 plain "loads" 1).2 _ written⟩

end WordMachine.Legacy
