import WordMachine.Proofs.Source.Reading
import WordMachine.Proofs.Source.WrittenLine

/-!
# Lines in pieces

The blanks of a line mean something in the legacy dialect: they end the location and the word, and they part the
accumulator from the operand. So a line is taken as a list of pieces, each with its characters, the kind of its token
and whether a blank stands before it. If each piece is one token where it stands (`Fitted`), then the line has the
tokens of its pieces (`tokensOf`), and no others.
-/
namespace WordMachine.Legacy

open Source Source.Token Text

/-- The characters of one token, and whether a blank stands before them. -/
structure Piece where
  gap : Bool
  characters : List Char
  kind : TokenKind

namespace Piece

def spaced (p : Piece) : List Char :=
  if p.gap then ' ' :: p.characters else p.characters

def token (p : Piece) (column : Nat) : Token :=
  ⟨p.kind, String.ofList p.characters, column + p.gap.toNat, p.gap⟩

end Piece

def charactersOf (pieces : List Piece) : List Char :=
  pieces.flatMap Piece.spaced

def tokensOf (column : Nat) : List Piece → List Token
  | [] => [⟨.endOfLine, "", column, false⟩]
  | p :: more => p.token column :: tokensOf (column + p.spaced.length) more

def columnAfter (column : Nat) (pieces : List Piece) : Nat :=
  pieces.foldl (fun column p => column + p.spaced.length) column

section

variable (column : Nat) (p : Piece) (more : List Piece)

@[simp] theorem columnAfter_nil : columnAfter column [] = column :=
  rfl

@[simp] theorem columnAfter_cons : columnAfter column (p :: more) = columnAfter (column + p.spaced.length) more :=
  rfl

@[simp] theorem columnAfter_append (front : List Piece) :
    columnAfter column (front ++ more) = columnAfter (columnAfter column front) more :=
  List.foldl_append

@[simp] theorem charactersOf_nil : charactersOf [] = [] :=
  rfl

@[simp] theorem charactersOf_cons : charactersOf (p :: more) = p.spaced ++ charactersOf more :=
  rfl

@[simp] theorem charactersOf_append (front : List Piece) :
    charactersOf (front ++ more) = charactersOf front ++ charactersOf more :=
  List.flatMap_append

theorem tokensOf_ne_nil : tokensOf column more ≠ [] := by
  cases more <;> simp [tokensOf]

@[simp] theorem current_tokensOf_nil : current (tokensOf column []) = ⟨.endOfLine, "", column, false⟩ :=
  rfl

@[simp] theorem current_tokensOf_cons : current (tokensOf column (p :: more)) = p.token column :=
  rfl

@[simp] theorem advance_tokensOf_cons :
    advance (tokensOf column (p :: more)) = tokensOf (column + p.spaced.length) more :=
  advance_cons (tokensOf_ne_nil _ more)

@[simp] theorem second_tokensOf_cons :
    second (tokensOf column (p :: more)) = current (tokensOf (column + p.spaced.length) more) :=
  congrArg current (advance_tokensOf_cons column p more)

end

/-! ## One piece -/

/-- The characters are one token of the legacy dialect when others follow them. -/
structure Lexeme (cs : List Char) (kind : TokenKind) (rest : List Char) : Prop where
  scanned : ∃ c tail, cs = c :: tail ∧ isGap c = false ∧
    scan legacyRules c (tail ++ rest) = .ok (kind, tail.length)
  visible : Visible cs

namespace Lexeme

/-- The dialects differ only in how they quote a text, in comments, and in octal words. -/
theorem scan_legacyRules {c : Char} (plain : c ≠ ';' ∧ c ≠ '"' ∧ c ≠ '<' ∧ c ≠ '(') (rest : List Char) :
    scan legacyRules c rest = scan symbolicRules c rest := by
  obtain ⟨comment, quote, bracket, parenthesis⟩ := plain
  simp [scan, legacyRules, symbolicRules, comment.symm, quote, bracket, parenthesis]

theorem of_spell {cs rest : List Char} {kind : TokenKind} (spells : Spell cs kind rest)
    (letters : ∀ c ∈ cs, c.isAlphanum = true) : Lexeme cs kind rest := by
  refine ⟨?_, .of_isAlphanum letters⟩
  obtain ⟨c, tail, rfl, visible, scanned⟩ := spells
  have letter := letters c (by simp)
  have plain : c ≠ ';' ∧ c ≠ '"' ∧ c ≠ '<' ∧ c ≠ '(' := by
    refine ⟨?_, ?_, ?_, ?_⟩ <;> (rintro rfl; cases letter)
  exact ⟨c, tail, rfl, visible, (scan_legacyRules plain _).trans scanned⟩

variable {rest : List Char}

/-- The digits of a number are one token when no numeral goes on with what follows. -/
theorem number {n : Nat} (writable : isWritable n = true) (ends : EndsNumeral rest) :
    Lexeme (toString n).toList (.number n) rest := by
  have writes := Writes.toString_of_isWritable writable
  apply of_spell (spell_number writes ends)
  intro c member
  simp [Char.isAlphanum, writes.digits c member]

/-- The characters of a name are one token when no name goes on with what follows. -/
theorem name {s : String} (named : IsName s) (ends : EndsName rest) :
    Lexeme s.toList (.identifier s) rest :=
  of_spell (named.spell ends) named.isAlphanum

theorem plus (rest : List Char) : Lexeme ['+'] .plus rest :=
  ⟨⟨'+', [], rfl, rfl, rfl⟩, by simp [Visible]⟩

theorem minus (rest : List Char) : Lexeme ['-'] .minus rest :=
  ⟨⟨'-', [], rfl, rfl, rfl⟩, by simp [Visible]⟩

theorem star (rest : List Char) : Lexeme ['*'] .star rest :=
  ⟨⟨'*', [], rfl, rfl, rfl⟩, by simp [Visible]⟩

theorem colon (rest : List Char) : Lexeme [':'] .colon rest :=
  ⟨⟨':', [], rfl, rfl, rfl⟩, by simp [Visible]⟩

theorem text {s : String} (visible : Visible s.toList) (unclosed : '>' ∉ s.toList) (rest : List Char) :
    Lexeme ('<' :: (s.toList ++ ['>'])) (.text s) rest := by
  have inside : ∀ c ∈ s.toList, (c != '>') = true := by
    intro c member
    rw [bne_iff_ne]
    rintro rfl
    exact unclosed member
  have taken : (s.toList ++ '>' :: rest).takeWhile (· != '>') = s.toList :=
    takeWhile_append_of_all inside fun c first => by
      obtain rfl : '>' = c := by simpa using first
      rfl
  refine ⟨⟨'<', s.toList ++ ['>'], rfl, rfl, ?_⟩, ?_⟩
  · simp [scan, scanText, legacyRules, taken]
  · exact .cons (by decide) (visible.append (by simp [Visible]))

theorem visible_of_octalDigits {cs : List Char} {n : Nat} (writes : OctalDigits cs n) : Visible cs := by
  intro c member
  have range : 48 ≤ c.toNat ∧ c.toNat ≤ 55 := by
    simpa [Char.le_def, UInt32.le_iff_toNat_le] using writes.digits c member
  omega

/-- An octal word is one token whatever follows. -/
theorem octal {designator : Char} (known : designator ∈ ['S', 'P', 'F', 'I']) {bits : Nat} {digits : List Char}
    (writes : OctalDigits digits bits) (rest : List Char) :
    Lexeme ('(' :: designator :: (digits ++ [')'])) (.octal designator bits) rest := by
  have whole : octalWord? (designator :: (digits ++ ')' :: rest)) = some (.octal designator bits) := by
    have eight : (digits ++ ')' :: rest).take 8 = digits := List.take_left' writes.length
    have closed : (digits ++ ')' :: rest).drop 8 = ')' :: rest := List.drop_left' writes.length
    have octal : digits.all (fun c => '0' ≤ c && c ≤ '7') = true := by
      rw [List.all_eq_true]
      intro c member
      simpa using writes.digits c member
    have letter : ['S', 'P', 'F', 'I'].contains designator = true := by simpa using known
    simp only [octalWord?, eight, closed, octal, letter, writes.length, writes.value]
    rfl
  refine ⟨⟨'(', designator :: (digits ++ [')']), rfl, rfl, ?_⟩, ?_⟩
  · simp [scan, legacyRules, whole, writes.length]
  · have letters : Visible ['S', 'P', 'F', 'I'] := by simp [Visible]
    have close : Visible [')'] := by simp [Visible]
    exact .cons (by decide) (.cons (letters designator known) (visible_of_octalDigits writes |>.append close))

end Lexeme

/-! ## Lines in pieces -/

/-- Each piece is one token before those that follow it. -/
inductive Fitted : List Piece → Prop
  | nil : Fitted []
  | cons {p : Piece} {more : List Piece} (first : Lexeme p.characters p.kind (charactersOf more))
      (others : Fitted more) : Fitted (p :: more)

namespace Fitted

variable {pieces : List Piece}

/-- A line in pieces has the tokens of its pieces. -/
theorem scanAll_eq (fitted : Fitted pieces) (column : Nat) :
    scanAll legacyRules (charactersOf pieces) column false = .ok (tokensOf column pieces) := by
  induction fitted generalizing column with
  | nil => rw [charactersOf_nil, scanAll, tokensOf]
  | @cons p more first _ ih =>
    obtain ⟨c, tail, whole, visible, scanned⟩ := first.scanned
    have taken (column : Nat) (spaced : Bool) :
        scanAll legacyRules (p.characters ++ charactersOf more) column spaced =
          .ok (⟨p.kind, String.ofList p.characters, column, spaced⟩ ::
            tokensOf (column + p.characters.length) more) := by
      have length : column + 1 + tail.length = column + (tail.length + 1) := by omega
      rw [whole, List.cons_append, scanAll_of_token visible scanned, List.take_left, List.drop_left, ih, length]
      rfl
    cases gap : p.gap with
    | false =>
      rw [charactersOf_cons, tokensOf, Piece.spaced, Piece.token, gap, if_neg (by simp), taken]
      rfl
    | true =>
      have length : column + 1 + p.characters.length = column + (p.characters.length + 1) := by omega
      rw [charactersOf_cons, tokensOf, Piece.spaced, Piece.token, gap, if_pos rfl, List.cons_append,
        scanAll_of_gap _ rfl, taken, length]
      rfl

theorem visible (fitted : Fitted pieces) : Visible (charactersOf pieces) := by
  induction fitted with
  | nil => exact nofun
  | @cons p more first _ ih =>
    rw [charactersOf_cons]
    refine Visible.append ?_ ih
    unfold Piece.spaced
    split
    · exact .cons (by decide) first.visible
    · exact first.visible

/-- A line in pieces is read as its tokens are. -/
theorem parse_eq (fitted : Fitted pieces) {text : String} (characters : text.toList = charactersOf pieces)
    (file : String) (number : Int) :
    Line.parse text file number = .ok ⟨Line.ofTokens (tokensOf 1 pieces) text file number, []⟩ := by
  have unbroken : Unbroken text.toList := characters ▸ fitted.visible.unbroken
  have single := single_of_unbroken unbroken
  rw [legacyParse_eq unbroken, ofLine, if_neg (by simpa using single), characters, fitted.scanAll_eq]
  rfl

end Fitted

end WordMachine.Legacy
