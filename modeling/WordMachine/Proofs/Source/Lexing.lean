import WordMachine.Proofs.Text.Numeral
import WordMachine.Source.Token

/-!
# Tokens of spelled texts

A text that is spelled token by token, with gaps where they are wanted, has the tokens that it spells
(`Spells`). A token ends where the next character cannot continue it: a numeral before anything but a digit,
a point or an at sign, a name before anything but a letter or a digit.
-/
namespace WordMachine.Source.Token

/-! ## One token -/

/-- The characters are one token of the symbolic dialect when others follow them. -/
def Spell (cs : List Char) (kind : TokenKind) (rest : List Char) : Prop :=
  ∃ c tail, cs = c :: tail ∧ isGap c = false ∧
    scan symbolicRules c (tail ++ rest) = .ok (kind, tail.length)

/-- A numeral does not go on with these characters. -/
def EndsNumeral (rest : List Char) : Prop :=
  ∀ c ∈ rest.head?, Text.isDigit c = false ∧ c ≠ '.' ∧ c ≠ '@'

/-- A name does not go on with these characters. -/
def EndsName (rest : List Char) : Prop :=
  ∀ c ∈ rest.head?, c.isAlphanum = false

theorem takeWhile_append_of_all {p : Char → Bool} {cs rest : List Char} (all : ∀ c ∈ cs, p c = true)
    (ends : ∀ c ∈ rest.head?, p c = false) : (cs ++ rest).takeWhile p = cs := by
  rw [List.takeWhile_append_of_pos all]
  cases rest with
  | nil => simp
  | cons c more =>
    have stops : p c = false := ends c rfl
    simp [stops]

theorem scan_numeral {cs rest : List Char} (digits : ∀ c ∈ cs, Text.isDigit c = true)
    (ends : EndsNumeral rest) : Numeral.scan (cs ++ rest) = ⟨cs, none, none⟩ := by
  have whole := takeWhile_append_of_all digits fun c next => (ends c next).1
  have fraction : Numeral.fraction? rest = none := by
    unfold Numeral.fraction?
    split
    · exact absurd rfl (ends '.' rfl).2.1
    · rfl
  have exponent : Numeral.exponent? rest = none := by
    unfold Numeral.exponent?
    split
    · exact absurd rfl (ends '@' rfl).2.2
    · rfl
  simp [Numeral.scan, whole, fraction, exponent]

/-- Digits spell a number when no numeral goes on with what follows. -/
theorem spell_number {cs rest : List Char} {n : Nat} (writes : Text.Writes cs n)
    (ends : EndsNumeral rest) : Spell cs (.number n) rest := by
  cases cs with
  | nil => exact absurd rfl writes.nonempty
  | cons c tail =>
    have digit := writes.digits c (by simp)
    have visible : isGap c = false := by
      rw [isGap, Bool.or_eq_false_iff, beq_eq_false_iff_ne, beq_eq_false_iff_ne]
      constructor <;> (rintro rfl; cases digit)
    have plain : ';' ≠ c ∧ c ≠ '"' := by
      constructor <;> (rintro rfl; cases digit)
    have read := scan_numeral (fun d member => Text.isDigit_of_isDigit (writes.digits d member)) ends
    refine ⟨c, tail, rfl, visible, ?_⟩
    rw [List.cons_append] at read
    simp [scan, symbolicRules, plain, Text.isDigit_of_isDigit digit, read, Numeral.kind, Numeral.width,
      writes.readNumeral, Except.map]

/-- A letter with letters and digits spells a name when no name goes on with what follows. -/
theorem spell_name {c : Char} {tail rest : List Char} (letter : c.isAlpha = true)
    (others : ∀ d ∈ tail, d.isAlphanum = true) (ends : EndsName rest) :
    Spell (c :: tail) (.identifier (String.ofList (c :: tail))) rest := by
  have visible : isGap c = false := by
    rw [isGap, Bool.or_eq_false_iff, beq_eq_false_iff_ne, beq_eq_false_iff_ne]
    constructor <;> (rintro rfl; cases letter)
  have plain : ';' ≠ c ∧ c ≠ '"' ∧ c ≠ '.' := by
    refine ⟨?_, ?_, ?_⟩ <;> (rintro rfl; cases letter)
  have name : (tail ++ rest).takeWhile Char.isAlphanum = tail := takeWhile_append_of_all others ends
  refine ⟨c, tail, rfl, visible, ?_⟩
  simp [scan, symbolicRules, plain, Text.isDigit_of_isAlpha letter, letter, name]

/-- A text spells itself between its quotes. -/
theorem spell_text {content : List Char} (quoteless : '"' ∉ content) (rest : List Char) :
    Spell ('"' :: (content ++ ['"'])) (.text (String.ofList content)) rest := by
  have inside : ∀ c ∈ content, (c != '"') = true := by
    intro c member
    rw [bne_iff_ne]
    rintro rfl
    exact quoteless member
  have taken : (content ++ '"' :: rest).takeWhile (· != '"') = content :=
    takeWhile_append_of_all inside fun c first => by
      obtain rfl : '"' = c := by simpa using first
      rfl
  refine ⟨'"', content ++ ['"'], rfl, rfl, ?_⟩
  simp [scan, scanText, symbolicRules, taken]

/-- A comment takes the rest of the line. -/
theorem spell_comment (content : List Char) :
    Spell (';' :: content) (.comment (String.ofList content)) [] :=
  ⟨';', content, rfl, rfl, by simp [scan, symbolicRules]⟩

/-! ## Lines -/

/-- The characters spell tokens, each given by its kind and whether a gap stands before it; `spaced` says
whether one stands before the first. -/
inductive Spells : List Char → Bool → List (TokenKind × Bool) → Prop
  | done (spaced : Bool) : Spells [] spaced [(.endOfLine, spaced)]
  | gap {rest : List Char} {spaced : Bool} {kinds : List (TokenKind × Bool)}
      (spells : Spells rest true kinds) : Spells (' ' :: rest) spaced kinds
  | token (cs : List Char) (spaced : Bool) {rest : List Char} {kind : TokenKind}
      {kinds : List (TokenKind × Bool)} (first : Spell cs kind rest) (spells : Spells rest false kinds) :
      Spells (cs ++ rest) spaced ((kind, spaced) :: kinds)

/-- A spelled text has the tokens that it spells, wherever it starts. -/
theorem Spells.scanAll {cs : List Char} {spaced : Bool} {kinds : List (TokenKind × Bool)}
    (spells : Spells cs spaced kinds) (column : Nat) :
    ∃ tokens, Token.scanAll symbolicRules cs column spaced = .ok tokens ∧
      tokens.map (fun t => (t.kind, t.spaceBefore)) = kinds := by
  induction spells generalizing column with
  | done spaced => exact ⟨_, by rw [Token.scanAll], rfl⟩
  | gap _ ih =>
    obtain ⟨tokens, read, same⟩ := ih (column + 1)
    refine ⟨tokens, ?_, same⟩
    rw [Token.scanAll, if_pos (show isGap ' ' = true from rfl), read]
  | @token _ spaced rest kind kinds first _ ih =>
    obtain ⟨c, tail, rfl, visible, scanned⟩ := first
    obtain ⟨tokens, read, same⟩ := ih (column + 1 + tail.length)
    refine ⟨⟨kind, String.ofList (c :: tail), column, spaced⟩ :: tokens, ?_, by rw [List.map_cons, same]⟩
    rw [List.cons_append, Token.scanAll, visible, scanned]
    simp [bind, Except.bind, pure, Except.pure, read]

end WordMachine.Source.Token
