import WordMachine.Proofs.Source.PlainLine
import WordMachine.Proofs.Source.Scanning

/-!
# Lines with another comment

A semicolon and whatever follows it leave the tokens before it as they are: no token but a text or a comment goes
on over a semicolon. The parser sees no difference between the end of a line and a comment, so a line that it can
read stays the same line, but for its comment, when a comment is put at its end. Of lines with a text that is never
closed nothing is said, since the parser reads none of them.
-/
namespace WordMachine.Source

def TokenKind.isInner : TokenKind → Bool
  | .comment _ | .openText _ | .endOfLine => false
  | _ => true

namespace Token

/-! ## Tokens before a mark -/

/-- No numeral, no name and no octal word goes on with the character. -/
structure Separates (rules : LexicalRules) (mark : Char) : Prop where
  digit : Text.isDigit mark = false
  name : mark.isAlphanum = false
  numeral : mark ∉ ['.', '@', '+', '-']
  octal : rules.octalWords = true → ∀ rest more, octalWord? (rest ++ mark :: more) = octalWord? rest

theorem separates_semicolon : Separates symbolicRules ';' :=
  ⟨by decide, rfl, by decide, nofun⟩

theorem takeWhile_mark {p : Char → Bool} {mark : Char} (stops : p mark = false) (cs more : List Char) :
    (cs ++ mark :: more).takeWhile p = cs.takeWhile p := by
  induction cs with
  | nil => simp [stops]
  | cons c cs ih =>
    rw [List.cons_append, List.takeWhile_cons, List.takeWhile_cons, ih]

section

variable {rules : LexicalRules} {mark : Char} (separates : Separates rules mark) (cs more : List Char)
include separates

theorem fraction?_mark : Numeral.fraction? (cs ++ mark :: more) = Numeral.fraction? cs := by
  have plain := separates.digit
  have apart : mark ≠ '.' := fun point => separates.numeral (by simp [point])
  rcases cs with _ | ⟨c, _ | ⟨d, cs⟩⟩
  · simp [Numeral.fraction?, apart]
  · by_cases point : c = '.'
    · subst point
      simp [Numeral.fraction?, plain]
    · simp [Numeral.fraction?, point]
  · by_cases point : c = '.'
    · subst point
      simp [Numeral.fraction?, takeWhile_mark plain]
    · simp [Numeral.fraction?, point]

theorem exponent?_mark : Numeral.exponent? (cs ++ mark :: more) = Numeral.exponent? cs := by
  have plain := separates.digit
  have apart : mark ≠ '@' ∧ mark ≠ '+' ∧ mark ≠ '-' := by
    have other := separates.numeral
    simp_all
  rcases cs with _ | ⟨c, _ | ⟨d, cs⟩⟩
  · simp [Numeral.exponent?, apart]
  · by_cases at_ : c = '@'
    · subst at_
      simp [Numeral.exponent?, plain, apart]
    · simp [Numeral.exponent?, at_]
  · by_cases at_ : c = '@'
    · subst at_
      by_cases sign : (d == '+' || d == '-') = true
      · simp [Numeral.exponent?, sign, takeWhile_mark plain]
      · have unsigned : (d == '+' || d == '-') = false := Bool.not_eq_true _ ▸ sign
        have taken := takeWhile_mark plain (d :: cs) more
        rw [List.cons_append] at taken
        simp [Numeral.exponent?, unsigned, taken]
    · simp [Numeral.exponent?, at_]

end

theorem length_fraction?_le (cs : List Char) :
    (Numeral.fraction? cs).elim 0 (·.length + 1) ≤ cs.length := by
  unfold Numeral.fraction?
  split
  next d rest =>
    have run := (List.takeWhile_prefix (p := Text.isDigit) (l := rest)).length_le
    split
    · simp only [Option.elim_some, List.length_cons]
      omega
    · simp
  · simp

theorem length_exponent?_le (cs : List Char) :
    ((Numeral.exponent? cs).elim 0 fun e => e.1.length + e.2.length + 1) ≤ cs.length := by
  unfold Numeral.exponent?
  split
  next rest =>
    dsimp only
    split
    · simp
    · have sign : ((rest.take 1).filter fun c => c == '+' || c == '-').length ≤ rest.length :=
        (List.length_filter_le _ _).trans (List.length_take_le' _ _)
      generalize ((rest.take 1).filter fun c => c == '+' || c == '-') = written at sign
      have run := (List.takeWhile_prefix (p := Text.isDigit) (l := rest.drop written.length)).length_le
      rw [List.length_drop] at run
      simp only [Option.elim_some, List.length_take, List.length_cons]
      omega
  · simp

/-- A numeral takes no more than there is. -/
theorem width_scan_le (cs : List Char) : (Numeral.scan cs).width ≤ cs.length := by
  have whole := (List.takeWhile_prefix (p := Text.isDigit) (l := cs)).length_le
  have fraction := length_fraction?_le (cs.drop (cs.takeWhile Text.isDigit).length)
  rw [List.length_drop] at fraction
  unfold Numeral.scan Numeral.width
  dsimp only
  generalize Numeral.fraction? (cs.drop (cs.takeWhile Text.isDigit).length) = found at fraction
  have exponent := length_exponent?_le (cs.drop ((cs.takeWhile Text.isDigit).length + found.elim 0 (·.length + 1)))
  rw [List.length_drop] at exponent
  omega

/-- A mark that separates ends a numeral. -/
theorem scan_numeral_mark {rules : LexicalRules} {mark : Char} (separates : Separates rules mark)
    (cs more : List Char) :
    Numeral.scan (cs ++ mark :: more) = Numeral.scan cs := by
  have whole := (List.takeWhile_prefix (p := Text.isDigit) (l := cs)).length_le
  have fraction := length_fraction?_le (cs.drop (cs.takeWhile Text.isDigit).length)
  rw [List.length_drop] at fraction
  unfold Numeral.scan
  dsimp only
  rw [takeWhile_mark separates.digit, List.drop_append_of_le_length whole, fraction?_mark separates,
    List.drop_append_of_le_length (by omega), exponent?_mark separates]

/-- What is neither a text nor a comment is the same token before such a character. -/
theorem scan_mark {rules : LexicalRules} {mark c : Char} (separates : Separates rules mark)
    (uncommented : rules.commentMark ≠ some c) (unquoted : c ≠ rules.openQuote) (rest more : List Char) :
    scan rules c (rest ++ mark :: more) = scan rules c rest := by
  have numeral := scan_numeral_mark separates (c :: rest) more
  have name := takeWhile_mark separates.name rest more
  have next : (rest ++ mark :: more).head?.any Text.isDigit = rest.head?.any Text.isDigit := by
    cases rest with
    | nil => simp [separates.digit]
    | cons => rfl
  have octal : (if rules.octalWords && c == '(' then octalWord? (rest ++ mark :: more) else none) =
      if rules.octalWords && c == '(' then octalWord? rest else none := by
    cases words : rules.octalWords with
    | false => rfl
    | true => rw [separates.octal words]
  rw [List.cons_append] at numeral
  unfold scan
  rw [if_neg uncommented, if_neg unquoted, if_neg uncommented, if_neg unquoted, octal, numeral, name, next]

theorem isInner_kind {n : Numeral} {kind : TokenKind} (made : n.kind = .ok kind) : kind.isInner = true := by
  unfold Numeral.kind at made
  split at made
  · split at made <;> cases made
    rfl
  · dsimp only at made
    split at made <;> cases made
    rfl

theorem isInner_punctuation (c : Char) : ((punctuation? c).getD (.unknown c)).isInner = true := by
  unfold punctuation?
  split <;> rfl

theorem length_of_octalWord? {rest : List Char} {kind : TokenKind} (found : octalWord? rest = some kind) :
    10 ≤ rest.length ∧ kind.isInner = true := by
  unfold octalWord? at found
  split at found
  next designator more =>
    dsimp only at found
    split at found
    next shaped =>
      cases found
      have closing : (more.drop 8).head? = some ')' := by simp_all
      have long : more.drop 8 ≠ [] := by
        intro none
        rw [none] at closing
        cases closing
      have length := List.length_pos_of_ne_nil long
      rw [List.length_drop] at length
      exact ⟨by rw [List.length_cons]; omega, rfl⟩
    · cases found
  · cases found

/-- What the token at the start of some characters can be, and how many of them it takes after the first. -/
inductive Scanned (rules : LexicalRules) (c : Char) (rest : List Char) : TokenKind → Nat → Prop
  | comment (marked : rules.commentMark = some c) : Scanned rules c rest (.comment (String.ofList rest)) rest.length
  | text (quoted : c = rules.openQuote) : Scanned rules c rest (scanText rules rest).1 (scanText rules rest).2
  | octal {kind : TokenKind} (word : octalWord? rest = some kind) : Scanned rules c rest kind 10
  | numeral {kind : TokenKind} (made : (Numeral.scan (c :: rest)).kind = .ok kind) :
    Scanned rules c rest kind ((Numeral.scan (c :: rest)).width - 1)
  | name : Scanned rules c rest (.identifier (String.ofList (c :: rest.takeWhile Char.isAlphanum)))
      (rest.takeWhile Char.isAlphanum).length
  | mark : Scanned rules c rest ((punctuation? c).getD (.unknown c)) 0

/-- A token that was taken is one of these. -/
theorem scanned_of_scan {rules : LexicalRules} {c : Char} {rest : List Char} {kind : TokenKind} {n : Nat}
    (taken : scan rules c rest = .ok (kind, n)) : Scanned rules c rest kind n := by
  unfold scan at taken
  split at taken
  next marked =>
    cases taken
    exact .comment marked
  split at taken
  next quoted =>
    obtain ⟨rfl, rfl⟩ := Prod.mk.inj (Except.ok.inj taken)
    exact .text quoted
  split at taken
  next word found =>
    cases taken
    split at found
    · exact .octal found
    · cases found
  split at taken
  · obtain ⟨found, made, same⟩ := map_eq_ok_iff.mp taken
    cases same
    exact .numeral made
  split at taken
  · cases taken
    exact .name
  · cases taken
    exact .mark

/-- A token that is neither a text nor a comment stands before the end of its line, and takes no more than there
is. -/
theorem inner_of_scan {rules : LexicalRules} {c : Char} {rest : List Char} {kind : TokenKind} {n : Nat}
    (uncommented : rules.commentMark ≠ some c) (unquoted : c ≠ rules.openQuote)
    (taken : scan rules c rest = .ok (kind, n)) : kind.isInner = true ∧ n ≤ rest.length := by
  cases scanned_of_scan taken with
  | comment marked => exact absurd marked uncommented
  | text quoted => exact absurd quoted unquoted
  | octal word => exact (length_of_octalWord? word).symm
  | numeral made =>
    have width := width_scan_le (c :: rest)
    rw [List.length_cons] at width
    exact ⟨isInner_kind made, by omega⟩
  | name => exact ⟨rfl, (List.takeWhile_prefix _).length_le⟩
  | mark => exact ⟨isInner_punctuation c, Nat.zero_le _⟩

/-! ## Tokens of a line with another comment -/

/-- The tokens of a line with a comment or without one, and those of the line with another comment. If the line
has a text that is never closed, as the first argument says, they are the same. -/
inductive Alike : Bool → List Token → List Token → Prop
  | closing {comment comment' : Option String} {tokens tokens' : List Token} (here : Closing comment tokens)
      (there : Closing comment' tokens') : Alike false tokens tokens'
  | unclosed {t : Token} {content : String} (opens : t.kind = .openText content) (others : List Token) :
      Alike true (t :: others) (t :: others)
  | token {broken : Bool} {t : Token} {tokens tokens' : List Token} (inner : t.kind.isInner = true)
      (others : Alike broken tokens tokens') : Alike broken (t :: tokens) (t :: tokens')

/-- The comment at the end of a line. -/
theorem scanAll_comment (content : List Char) (column : Nat) (spaced : Bool) :
    ∃ tokens, scanAll symbolicRules (';' :: content) column spaced = .ok tokens ∧
      Closing (some (String.ofList content)) tokens := by
  have marked : scan symbolicRules ';' content = .ok (.comment (String.ofList content), content.length) := rfl
  rw [scanAll_of_token rfl marked, List.drop_length, scanAll]
  exact ⟨_, rfl, .commented rfl rfl⟩

/-- A text that is closed is the same token whatever follows it. -/
theorem scanText_cases (rules : LexicalRules) (rest : List Char) :
    ((scanText rules rest).1.isInner = true ∧ (scanText rules rest).2 ≤ rest.length ∧
      ∀ more, scanText rules (rest ++ more) = scanText rules rest) ∨
      ∃ content, (scanText rules rest).1 = .openText content := by
  by_cases closed : (rest.takeWhile (· != rules.closeQuote)).length < rest.length
  · left
    have text (cs : List Char) (content : List Char) (same : cs.takeWhile (· != rules.closeQuote) = content)
        (shorter : content.length < cs.length) :
        scanText rules cs = (.text (String.ofList content), content.length + 1) := by
      subst same
      exact if_pos shorter
    rw [text rest _ rfl closed]
    refine ⟨rfl, closed, fun more => text _ _ ?_ ?_⟩
    · rw [List.takeWhile_append, if_neg (by omega)]
    · rw [List.length_append]
      omega
  · right
    unfold scanText
    dsimp only
    rw [if_neg closed]
    exact ⟨_, rfl⟩

/-- What a token is before such a character, if it is no comment: the same, or a text that is never closed. -/
theorem scan_mark_cases {rules : LexicalRules} {mark c : Char} (separates : Separates rules mark) {rest : List Char}
    {kind : TokenKind} {n : Nat} (uncommented : rules.commentMark ≠ some c)
    (taken : scan rules c rest = .ok (kind, n)) (more : List Char) :
    (kind.isInner = true ∧ n ≤ rest.length ∧ scan rules c (rest ++ mark :: more) = .ok (kind, n)) ∨
      ∃ content, kind = .openText content := by
  by_cases quote : c = rules.openQuote
  · have text (cs : List Char) : scan rules c cs = .ok (scanText rules cs) := by
      rw [scan, if_neg uncommented, if_pos quote]
    rw [text] at taken
    rcases scanText_cases rules rest with ⟨inner, width, again⟩ | unclosed
    · rw [Except.ok.inj taken] at inner width
      exact Or.inl ⟨inner, width, by rw [text, again, taken]⟩
    · rw [Except.ok.inj taken] at unclosed
      exact Or.inr unclosed
  · obtain ⟨inner, width⟩ := inner_of_scan uncommented quote taken
    exact Or.inl ⟨inner, width, (scan_mark separates uncommented quote rest more).trans taken⟩

/-- A semicolon and what follows it are a comment, unless a text before it is never closed. -/
theorem scanAll_mark {cs : List Char} {column : Nat} {spaced : Bool} {tokens : List Token} (more : List Char)
    (read : scanAll symbolicRules cs column spaced = .ok tokens) :
    (∃ tokens', scanAll symbolicRules (cs ++ ';' :: more) column spaced = .ok tokens' ∧ Alike false tokens tokens') ∨
      Alike true tokens tokens := by
  fun_induction scanAll symbolicRules cs column spaced generalizing tokens with
  | case1 column spaced =>
    cases read
    obtain ⟨tokens', added, closing⟩ := scanAll_comment more column spaced
    exact Or.inl ⟨tokens', added, .closing (.plain rfl) closing⟩
  | case2 column spaced c rest blank ih =>
    rcases ih read with ⟨tokens', added, alike⟩ | broken
    · exact Or.inl ⟨tokens', (scanAll_of_gap _ blank column spaced).trans added, alike⟩
    · exact Or.inr broken
  | case3 column spaced c rest visible ih =>
    have seen : isGap c = false := by simpa using visible
    obtain ⟨⟨kind, n⟩, taken, read⟩ := bind_eq_ok_iff.mp read
    obtain ⟨others, later, made⟩ := bind_eq_ok_iff.mp read
    cases made
    by_cases commented : c = ';'
    · subst commented
      cases taken
      rw [List.drop_length, scanAll] at later
      cases later
      obtain ⟨tokens', added, closing⟩ := scanAll_comment (rest ++ ';' :: more) column spaced
      exact Or.inl ⟨tokens', added, .closing (.commented rfl rfl) closing⟩
    · have unmarked : symbolicRules.commentMark ≠ some c := by simpa [symbolicRules] using Ne.symm commented
      rcases scan_mark_cases separates_semicolon unmarked taken more with ⟨inner, width, again⟩ | ⟨content, opens⟩
      · have whole := scanAll_of_token seen again column spaced
        rw [List.drop_append_of_le_length width, List.take_append_of_le_length width] at whole
        rcases ih n later with ⟨tokens', added, alike⟩ | broken
        · rw [added] at whole
          exact Or.inl ⟨_, whole, .token inner alike⟩
        · exact Or.inr (.token inner broken)
      · exact Or.inr (.unclosed opens others)

end Token

open Token

/-! ## Parts of such lines -/

/-- The kinds of token at which a line ends for the parser: its end, or a comment. -/
def TokenKind.Closes (kind : TokenKind) : Prop :=
  kind = .endOfLine ∨ ∃ text, kind = .comment text

section

variable {broken : Bool} {tokens tokens' rest : List Token}

namespace Token.Alike

theorem ne_nil (alike : Alike broken tokens tokens') : tokens ≠ [] ∧ tokens' ≠ [] := by
  cases alike with
  | closing here there => exact ⟨by cases here <;> simp, by cases there <;> simp⟩
  | unclosed => simp
  | token => simp

/-- The first tokens are one and the same, or the lines end there. -/
theorem current (alike : Alike broken tokens tokens') :
    Token.current tokens' = Token.current tokens ∨
      (Token.current tokens).kind.Closes ∧ (Token.current tokens').kind.Closes := by
  cases alike with
  | closing here there => exact Or.inr ⟨here.current, there.current⟩
  | unclosed => exact Or.inl rfl
  | token => exact Or.inl rfl

/-- The second tokens are one and the same, or the lines end there. -/
theorem second (alike : Alike broken tokens tokens') :
    Token.second tokens' = Token.second tokens ∨
      (Token.second tokens).kind.Closes ∧ (Token.second tokens').kind.Closes := by
  cases alike with
  | closing here there => exact Or.inr ⟨Or.inl here.second, Or.inl there.second⟩
  | unclosed => exact Or.inl rfl
  | token inner others =>
    rw [second_cons others.ne_nil.1, second_cons others.ne_nil.2]
    exact others.current

theorem advance (alike : Alike broken tokens tokens') (inner : (Token.current tokens).kind.isInner = true) :
    Alike broken (Token.advance tokens) (Token.advance tokens') := by
  cases alike with
  | closing here there =>
    rcases here.current with ends | ⟨text, marked⟩
    · rw [ends] at inner
      cases inner
    · rw [marked] at inner
      cases inner
  | @unclosed t content opens others =>
    have kind : (Token.current (t :: others)).kind = .openText content := opens
    rw [kind] at inner
    cases inner
  | token inner others =>
    rw [advance_cons others.ne_nil.1, advance_cons others.ne_nil.2]
    exact others

end Token.Alike

theorem TokenKind.Closes.ne {kind other : TokenKind} (closes : kind.Closes) (inner : other.isInner = true) :
    kind ≠ other := by
  rintro rfl
  rcases closes with ends | ⟨text, marked⟩
  · rw [ends] at inner
    cases inner
  · rw [marked] at inner
    cases inner

def signed? : TokenKind → TokenKind → Option Numeric.Number
  | .plus, .number n => some (.integer n)
  | .plus, .real x => some (.real x)
  | .minus, .number n => some (.integer (-n))
  | .minus, .real x => some (.real x.neg)
  | _, _ => none

/-- Whether a number follows is settled by the kinds of two tokens. -/
theorem signedNumber?_eq_signed? (tokens : List Token) :
    signedNumber? tokens =
      if (second tokens).spaceBefore then none
      else (signed? (current tokens).kind (second tokens).kind).map
        (·, (current tokens).column, advance (advance tokens)) := by
  unfold signedNumber? signed?
  dsimp only
  split
  · rfl
  · cases (current tokens).kind <;> cases (second tokens).kind <;> rfl

theorem isInner_of_signed? {sign numeral : TokenKind} {value : Numeric.Number}
    (signed : signed? sign numeral = some value) : sign.isInner = true ∧ numeral.isInner = true := by
  unfold signed? at signed
  split at signed
  case h_5 => cases signed
  all_goals exact ⟨rfl, rfl⟩

/-- At the end of a line no sign has a number. -/
theorem signedNumber?_of_closes {tokens : List Token}
    (closes : (current tokens).kind.Closes ∨ (second tokens).kind.Closes) : signedNumber? tokens = none := by
  cases signed : signed? (current tokens).kind (second tokens).kind with
  | none => simp [signedNumber?_eq_signed?, signed]
  | some value =>
    obtain ⟨sign, numeral⟩ := isInner_of_signed? signed
    rcases closes with here | next
    · exact absurd rfl (here.ne sign)
    · exact absurd rfl (next.ne numeral)

theorem operand_of_closes {tokens : List Token} (closes : (current tokens).kind.Closes) :
    LineParser.operand tokens = .ok (none, tokens) := by
  rcases closes with ends | ⟨text, marked⟩ <;> simp [LineParser.operand, *]

def LineParser.target (tokens : List Token) : Except Complaint Target :=
  match (Token.current tokens).kind with
  | .identifier name => .ok (.label name)
  | .number n => .ok (.location n)
  | _ => unexpected symbolicRules tokens "an address or constant"

def LineParser.starless (indirect : Bool) (column : Nat) (tokens : List Token) :
    Except Complaint (AddressOperand × List Token) := do
  let target ← target tokens
  let (index, rest) ← index (Token.advance tokens)
  return (⟨target, index, indirect, column⟩, rest)

theorem address_eq_starless (tokens : List Token) (column : Nat) :
    LineParser.address tokens column =
      if (current tokens).kind = .star then LineParser.starless true column (advance tokens)
      else LineParser.starless false column tokens := by
  unfold LineParser.address LineParser.starless LineParser.target
  by_cases star : (current tokens).kind = .star
  · simp only [star, if_true]
    cases (current (advance tokens)).kind <;> rfl
  · simp only [star, if_false]
    cases (current tokens).kind <;> rfl

theorem content_of_closes {tokens : List Token} (closes : (current tokens).kind.Closes) :
    LineParser.content tokens = .ok (none, tokens) := by
  rcases closes with ends | ⟨text, marked⟩ <;> simp [LineParser.content, *]

/-- What is neither the end of the line nor a comment cannot stand where the comment is wanted. -/
theorem comment_of_inner {tokens : List Token} (uncommented : ∀ text, (current tokens).kind ≠ .comment text)
    (further : (current tokens).kind ≠ .endOfLine) :
    LineParser.comment tokens = complain tokens (.afterWord (current tokens).describe) := by
  unfold LineParser.comment
  cases kind : (current tokens).kind <;> simp_all

/-- An operand other than a text or a number without a sign. -/
def LineParser.unquoted (column : Nat) (tokens : List Token) : Except Complaint (Option Operand × List Token) :=
  match signedNumber? tokens with
  | some (value, column, rest) => do
    let value ← numberConstant value column
    return (some (.constant value column), rest)
  | none => do
    let (a, rest) ← address tokens column
    return (some (.address a), rest)

theorem operand_eq_unquoted (tokens : List Token) :
    LineParser.operand tokens =
      match (current tokens).kind with
      | .endOfLine | .comment _ => .ok (none, tokens)
      | .text content => do
        let value ← textConstant content (current tokens).column
        return (some (.constant value (current tokens).column), advance tokens)
      | .real _ => complain tokens .unsignedConstant
      | _ => LineParser.unquoted (current tokens).column tokens :=
  rfl

theorem kind_iff_of_same_or_closes {t t' : Token} {kind : TokenKind} (inner : kind.isInner = true)
    (similar : t' = t ∨ t.kind.Closes ∧ t'.kind.Closes) : t'.kind = kind ↔ t.kind = kind := by
  rcases similar with rfl | ⟨here, there⟩
  · rfl
  · exact iff_of_false (there.ne inner) (here.ne inner)

variable (alike : Alike broken tokens tokens')
include alike

theorem Token.Alike.current_kind {kind : TokenKind} (inner : kind.isInner = true) :
    (Token.current tokens').kind = kind ↔ (Token.current tokens).kind = kind :=
  kind_iff_of_same_or_closes inner alike.current

theorem Token.Alike.second_kind {kind : TokenKind} (inner : kind.isInner = true) :
    (Token.second tokens').kind = kind ↔ (Token.second tokens).kind = kind :=
  kind_iff_of_same_or_closes inner alike.second

theorem Token.Alike.advance_of_kind {kind : TokenKind} (first : (Token.current tokens).kind = kind)
    (inner : kind.isInner = true) : Alike broken (Token.advance tokens) (Token.advance tokens') :=
  alike.advance (first ▸ inner)

theorem location_alike : (LineParser.location tokens').1 = (LineParser.location tokens).1 ∧
    Alike broken (LineParser.location tokens).2 (LineParser.location tokens').2 := by
  by_cases numbered : ∃ n, (current tokens).kind = .number n
  · obtain ⟨n, number⟩ := numbered
    have number' := (alike.current_kind rfl).mpr number
    rcases alike.second with same | ⟨here, there⟩
    · -- both lines have the second token, so it is decided alike whether the number is a location
      unfold LineParser.location
      simp only [number, number', same]
      split
      · exact ⟨rfl, alike⟩
      · exact ⟨rfl, alike⟩
      · split
        · exact ⟨rfl, alike.advance_of_kind number rfl⟩
        · exact ⟨rfl, alike⟩
      · exact ⟨rfl, alike⟩
    · rw [location_eq_none (Or.inr here), location_eq_none (Or.inr there)]
      exact ⟨rfl, alike⟩
  · have other (n : Nat) : (current tokens).kind ≠ .number n := fun number => numbered ⟨n, number⟩
    rw [location_eq_none (Or.inl other),
      location_eq_none (Or.inl fun n number => other n ((alike.current_kind rfl).mp number))]
    exact ⟨rfl, alike⟩

theorem label_alike : (LineParser.label tokens').1 = (LineParser.label tokens).1 ∧
    Alike broken (LineParser.label tokens).2 (LineParser.label tokens').2 := by
  by_cases labelled : ∃ name, (current tokens).kind = .identifier name ∧ (second tokens).kind = .colon
  · obtain ⟨name, named, colon⟩ := labelled
    have after := (alike.advance_of_kind named rfl).advance_of_kind colon rfl
    simp [LineParser.label, named, colon, (alike.current_kind rfl).mpr named, (alike.second_kind rfl).mpr colon, after]
  · have other : (∀ name, (current tokens).kind ≠ .identifier name) ∨ (second tokens).kind ≠ .colon := by
      by_contra both
      simp only [not_or, not_forall, not_not] at both
      exact labelled ⟨both.1.choose, both.1.choose_spec, both.2⟩
    rw [label_eq_none other, label_eq_none (other.imp (fun nameless name named => nameless name
      ((alike.current_kind rfl).mp named)) fun apart colon => apart ((alike.second_kind rfl).mp colon))]
    exact ⟨rfl, alike⟩

theorem accumulator_alike : (LineParser.accumulator tokens').1 = (LineParser.accumulator tokens).1 ∧
    Alike broken (LineParser.accumulator tokens).2 (LineParser.accumulator tokens').2 := by
  by_cases comma : (second tokens).kind = .comma
  · by_cases numbered : ∃ n, (current tokens).kind = .number n
    · obtain ⟨n, number⟩ := numbered
      have after := (alike.advance_of_kind number rfl).advance_of_kind comma rfl
      simp [LineParser.accumulator, number, comma, (alike.current_kind rfl).mpr number,
        (alike.second_kind rfl).mpr comma, after]
    · have other (n : Nat) : (current tokens).kind ≠ .number n := fun number => numbered ⟨n, number⟩
      have other' (n : Nat) : (current tokens').kind ≠ .number n :=
        fun number => other n ((alike.current_kind rfl).mp number)
      simp [LineParser.accumulator, other, other', alike]
  · rw [accumulator_eq_none comma, accumulator_eq_none fun comma' => comma ((alike.second_kind rfl).mp comma')]
    exact ⟨rfl, alike⟩

theorem index_alike {index : Option Nat} (read : LineParser.index tokens = .ok (index, rest)) :
    ∃ rest', LineParser.index tokens' = .ok (index, rest') ∧ Alike broken rest rest' := by
  unfold LineParser.index at read
  split at read
  next opened =>
    have inside := alike.advance_of_kind opened rfl
    dsimp only at read
    split at read
    next n number =>
      have after := inside.advance_of_kind number rfl
      split at read
      next closed =>
        cases read
        exact ⟨_, by simp [LineParser.index, (alike.current_kind rfl).mpr opened, (inside.current_kind rfl).mpr number,
          (after.current_kind rfl).mpr closed], after.advance_of_kind closed rfl⟩
      · cases read
    · cases read
  next other =>
    cases read
    have other' : (current tokens').kind ≠ .leftBracket := fun opened => other ((alike.current_kind rfl).mp opened)
    exact ⟨tokens', by simp [LineParser.index], alike⟩

/-- Both lines go on with one signed number, or neither does. -/
theorem signedNumber?_alike :
    (signedNumber? tokens = none ∧ signedNumber? tokens' = none) ∨
      ∃ value column rest rest', signedNumber? tokens = some (value, column, rest) ∧
        signedNumber? tokens' = some (value, column, rest') ∧ Alike broken rest rest' := by
  rcases alike.current with same | ⟨here, there⟩
  · rcases alike.second with next | ⟨here, there⟩
    · rw [signedNumber?_eq_signed?, signedNumber?_eq_signed?, same, next]
      split
      · exact Or.inl ⟨rfl, rfl⟩
      · cases signed : signed? (current tokens).kind (second tokens).kind with
        | none => exact Or.inl ⟨rfl, rfl⟩
        | some value =>
          obtain ⟨sign, numeral⟩ := isInner_of_signed? signed
          exact Or.inr ⟨value, _, _, _, rfl, rfl, (alike.advance sign).advance numeral⟩
    · exact Or.inl ⟨signedNumber?_of_closes (Or.inr here), signedNumber?_of_closes (Or.inr there)⟩
  · exact Or.inl ⟨signedNumber?_of_closes (Or.inl here), signedNumber?_of_closes (Or.inl there)⟩

theorem target_alike {target : Target} (read : LineParser.target tokens = .ok target) :
    LineParser.target tokens' = .ok target ∧ Alike broken (advance tokens) (advance tokens') := by
  unfold LineParser.target at read ⊢
  split at read
  next name label =>
    rw [(alike.current_kind rfl).mpr label]
    exact ⟨read, alike.advance_of_kind label rfl⟩
  next n number =>
    rw [(alike.current_kind rfl).mpr number]
    exact ⟨read, alike.advance_of_kind number rfl⟩
  · exact absurd read unexpected_ne_ok

theorem starless_alike {indirect : Bool} {column : Nat} {a : AddressOperand}
    (read : LineParser.starless indirect column tokens = .ok (a, rest)) :
    ∃ rest', LineParser.starless indirect column tokens' = .ok (a, rest') ∧ Alike broken rest rest' := by
  obtain ⟨target, named, read⟩ := bind_eq_ok_iff.mp read
  obtain ⟨⟨index, left⟩, bracketed, made⟩ := bind_eq_ok_iff.mp read
  cases made
  obtain ⟨named', inside⟩ := target_alike alike named
  obtain ⟨rest', bracketed', after⟩ := index_alike inside bracketed
  exact ⟨rest', bind_eq_ok_iff.mpr ⟨_, named', bind_eq_ok_iff.mpr ⟨_, bracketed', rfl⟩⟩, after⟩

theorem address_alike {column : Nat} {a : AddressOperand} (read : LineParser.address tokens column = .ok (a, rest)) :
    ∃ rest', LineParser.address tokens' column = .ok (a, rest') ∧ Alike broken rest rest' := by
  rw [address_eq_starless] at read ⊢
  split at read
  next star =>
    rw [if_pos ((alike.current_kind rfl).mpr star)]
    exact starless_alike (alike.advance_of_kind star rfl) read
  next other =>
    rw [if_neg fun star => other ((alike.current_kind rfl).mp star)]
    exact starless_alike alike read

theorem unquoted_alike {column : Nat} {operand : Option Operand}
    (read : LineParser.unquoted column tokens = .ok (operand, rest)) :
    ∃ rest', LineParser.unquoted column tokens' = .ok (operand, rest') ∧ Alike broken rest rest' := by
  unfold LineParser.unquoted at read ⊢
  rcases signedNumber?_alike alike with ⟨unsigned, unsigned'⟩ | ⟨value, place, left, left', signed, signed', after⟩
  · rw [unsigned] at read
    rw [unsigned']
    obtain ⟨⟨a, left⟩, named, made⟩ := bind_eq_ok_iff.mp read
    cases made
    obtain ⟨rest', named', after⟩ := address_alike alike named
    exact ⟨rest', bind_eq_ok_iff.mpr ⟨_, named', rfl⟩, after⟩
  · rw [signed] at read
    rw [signed']
    obtain ⟨constant, fitted, made⟩ := bind_eq_ok_iff.mp read
    cases made
    exact ⟨left', bind_eq_ok_iff.mpr ⟨_, fitted, rfl⟩, after⟩

theorem operand_alike {operand : Option Operand} (read : LineParser.operand tokens = .ok (operand, rest)) :
    ∃ rest', LineParser.operand tokens' = .ok (operand, rest') ∧ Alike broken rest rest' := by
  rcases alike.current with same | ⟨here, there⟩
  · rw [operand_eq_unquoted] at read ⊢
    rw [same]
    split at read
    · cases read
      exact ⟨tokens', rfl, alike⟩
    · cases read
      exact ⟨tokens', rfl, alike⟩
    next content text =>
      obtain ⟨constant, fitted, made⟩ := bind_eq_ok_iff.mp read
      cases made
      exact ⟨_, bind_eq_ok_iff.mpr ⟨_, fitted, rfl⟩, alike.advance_of_kind text rfl⟩
    · cases read
    · exact unquoted_alike alike read
  · rw [operand_of_closes here] at read
    cases read
    exact ⟨tokens', operand_of_closes there, alike⟩

/-- An instruction starts with a name, so it starts with the same token in both lines. -/
theorem statement_alike {name : String} {s : Statement} (named : (current tokens).kind = .identifier name)
    (read : LineParser.statement name tokens = .ok (s, rest)) :
    ∃ rest', LineParser.statement name tokens' = .ok (s, rest') ∧ Alike broken rest rest' := by
  have after := accumulator_alike (alike.advance_of_kind named rfl)
  unfold LineParser.statement at read ⊢
  split at read
  · cases read
  next entry found =>
    dsimp only at read ⊢
    obtain ⟨⟨operand, left⟩, parsed, made⟩ := bind_eq_ok_iff.mp read
    obtain ⟨left', parsed', later⟩ := operand_alike after.2 parsed
    rw [after.1, parsed']
    dsimp only [bind, Except.bind] at made ⊢
    split at made
    · cases made
    · cases made
      exact ⟨left', rfl, later⟩
    · split at made
      next accepts =>
        cases made
        exact ⟨left', if_pos accepts, later⟩
      · cases made
    next nameless address =>
      cases made
      exact ⟨left', rfl, later⟩

/-- The word of a line does not depend on its comment. -/
theorem content_alike {content : Option Content} (read : LineParser.content tokens = .ok (content, rest)) :
    ∃ rest', LineParser.content tokens' = .ok (content, rest') ∧ Alike broken rest rest' := by
  rcases alike.current with same | ⟨here, there⟩
  · unfold LineParser.content at read ⊢
    dsimp only at read ⊢
    rw [same]
    split at read
    · cases read
      exact ⟨tokens', rfl, alike⟩
    · cases read
      exact ⟨tokens', rfl, alike⟩
    next name named =>
      obtain ⟨⟨s, left⟩, parsed, made⟩ := bind_eq_ok_iff.mp read
      cases made
      obtain ⟨rest', parsed', after⟩ := statement_alike alike named parsed
      exact ⟨rest', bind_eq_ok_iff.mpr ⟨_, parsed', rfl⟩, after⟩
    next n number =>
      obtain ⟨c, fitted, made⟩ := map_eq_ok_iff.mp read
      cases made
      exact ⟨_, map_eq_ok_iff.mpr ⟨c, fitted, rfl⟩, alike.advance_of_kind number rfl⟩
    next x real =>
      obtain ⟨c, fitted, made⟩ := map_eq_ok_iff.mp read
      cases made
      exact ⟨_, map_eq_ok_iff.mpr ⟨c, fitted, rfl⟩, alike.advance_of_kind real rfl⟩
    next text quoted =>
      obtain ⟨c, fitted, made⟩ := map_eq_ok_iff.mp read
      cases made
      exact ⟨_, map_eq_ok_iff.mpr ⟨c, fitted, rfl⟩, alike.advance_of_kind quoted rfl⟩
    · rcases signedNumber?_alike alike with ⟨unsigned, -⟩ | ⟨value, place, left, left', signed, signed', after⟩
      · rw [unsigned] at read
        exact absurd read unexpected_ne_ok
      · rw [signed] at read
        rw [signed']
        obtain ⟨c, fitted, made⟩ := bind_eq_ok_iff.mp read
        cases made
        exact ⟨left', bind_eq_ok_iff.mpr ⟨_, fitted, rfl⟩, after⟩
  · rw [content_of_closes here] at read
    cases read
    exact ⟨tokens', content_of_closes there, alike⟩

/-- A line that could be read has ended where its comment is wanted, so it had no text that is never closed. -/
theorem comment_alike {comment : Option String} (read : LineParser.comment tokens = .ok comment) :
    broken = false ∧ ∃ comment', LineParser.comment tokens' = .ok comment' := by
  cases alike with
  | closing here there => exact ⟨rfl, _, comment_of_closing there⟩
  | @unclosed t content opens others =>
    have kind : (current (t :: others)).kind = .openText content := opens
    rw [comment_of_inner (by simp [kind]) (by simp [kind])] at read
    cases read
  | @token broken t tokens tokens' inner others =>
    have kind : (current (t :: tokens)).kind = t.kind := rfl
    rw [comment_of_inner (fun text marked => by simp [← kind, marked, TokenKind.isInner] at inner)
      (fun ends => by simp [← kind, ends, TokenKind.isInner] at inner)] at read
    cases read

end

/-! ## Lines -/

/-- The lines have one location, label and word. Their places in the file and their comments may differ. -/
structure Line.Agrees (l l' : Line) : Prop where
  location : l'.location = l.location
  label : l'.label = l.label
  content : l'.content = l.content

/-- The line has no location, no label and no word. -/
structure Line.Silent (l : Line) : Prop where
  location : l.location = none
  label : l.label = none
  content : l.content = none

/-- A line is read from its location, its label, its word and its comment, in this order. -/
theorem ofTokens_eq_ok_iff {tokens : List Token} {text file : String} {number : Int} {l : Line} :
    (Line.ofTokens tokens text file number).value = .ok l ↔
      ∃ content rest comment,
        LineParser.content (LineParser.label (LineParser.location tokens).2).2 = .ok (content, rest) ∧
        LineParser.comment rest = .ok comment ∧
        l = { number, text, location := (LineParser.location tokens).1, content, comment, file
              label := (LineParser.label (LineParser.location tokens).2).1 } := by
  unfold Line.ofTokens
  simp only [mapError_eq_ok_iff, bind_eq_ok_iff, Prod.exists]
  constructor
  · rintro ⟨content, rest, read, comment, closed, made⟩
    cases made
    exact ⟨content, rest, comment, read, closed, rfl⟩
  · rintro ⟨content, rest, comment, read, closed, rfl⟩
    exact ⟨content, rest, read, comment, closed, rfl⟩

section

variable {tokens tokens' : List Token} {text file : String} {number : Int} {l : Line}
  (read : (Line.ofTokens tokens text file number).value = .ok l)
include read

/-- What is read of tokens does not depend on where the line stands. -/
theorem ofTokens_elsewhere (text' file' : String) (number' : Int) :
    ∃ l', (Line.ofTokens tokens text' file' number').value = .ok l' ∧ l.Agrees l' := by
  obtain ⟨content, rest, comment, written, closed, rfl⟩ := ofTokens_eq_ok_iff.mp read
  exact ⟨_, ofTokens_eq_ok_iff.mpr ⟨content, rest, comment, written, closed, rfl⟩, rfl, rfl, rfl⟩

/-- What is read of tokens does not depend on the comment after them. -/
theorem ofTokens_alike {broken : Bool} (alike : Alike broken tokens tokens') (text' file' : String) (number' : Int) :
    broken = false ∧ ∃ l', (Line.ofTokens tokens' text' file' number').value = .ok l' ∧ l.Agrees l' := by
  obtain ⟨content, rest, comment, written, closed, rfl⟩ := ofTokens_eq_ok_iff.mp read
  obtain ⟨location, afterLocation⟩ := location_alike alike
  obtain ⟨label, afterLabel⟩ := label_alike afterLocation
  obtain ⟨rest', written', after⟩ := content_alike afterLabel written
  obtain ⟨whole, comment', closed'⟩ := comment_alike after closed
  exact ⟨whole, _, ofTokens_eq_ok_iff.mpr ⟨content, rest', comment', written', closed', rfl⟩, location, label, rfl⟩

end

/-- A line that closes at once is silent. -/
theorem ofTokens_of_closing {comment : Option String} {tokens : List Token} (closing : Closing comment tokens)
    (text file : String) (number : Int) :
    ∃ l, (Line.ofTokens tokens text file number).value = .ok l ∧ l.Silent := by
  have unlocated : LineParser.location tokens = (none, tokens) := location_eq_none (Or.inr (Or.inl closing.second))
  have unlabelled : LineParser.label tokens = (none, tokens) := label_eq_none (Or.inr (by simp [closing.second]))
  refine ⟨_, ofTokens_eq_ok_iff.mpr ⟨none, tokens, comment, ?_, comment_of_closing closing, rfl⟩, ?_, ?_, rfl⟩
  · rw [unlocated, unlabelled]
    exact content_of_closes closing.current
  · rw [unlocated]
  · rw [unlocated, unlabelled]

end WordMachine.Source
