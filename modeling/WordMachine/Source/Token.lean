import WordMachine.Numeric.Decimal
import WordMachine.Text.Digit
import WordMachine.Text.Quoted
/-!
Tokens of one source line. Both dialects are read line by line, so a scanner never looks beyond the line.
Characters that start no token become tokens of their own and are left to the parsers, which know what was
expected; the one thing a scanner refuses is a numeral that cannot be read, because some of its digits have
no decimal value or because it is too long.
-/
namespace WordMachine.Source

open Numeric

inductive TokenKind where
  | identifier (name : String)
  /-- Digits, without a sign. -/
  | number (value : Nat)
  /-- Digits with a fraction or an exponent, without a sign. -/
  | real (value : Binary64)
  /-- Characters between quotes. -/
  | text (content : String)
  /-- Eight octal digits in parentheses, after a letter that says how to read them. -/
  | octal (designator : Char) (bits : Nat)
  | comment (content : String)
  | plus | minus | star | comma | colon | leftBracket | rightBracket
  /-- A character that starts nothing else. -/
  | unknown (character : Char)
  /-- A quote that is never closed, and what follows it. -/
  | openText (content : String)
  | endOfLine
  deriving DecidableEq, Repr

namespace TokenKind

def name : TokenKind → String
  | .identifier _ => "IDENTIFIER"
  | .number _ => "NUMBER"
  | .real _ => "FLOAT"
  | .text _ => "STRING"
  | .octal .. => "OCTAL"
  | .comment _ => "COMMENT"
  | .plus => "PLUS"
  | .minus => "MINUS"
  | .star => "STAR"
  | .comma => "COMMA"
  | .colon => "COLON"
  | .leftBracket => "LBRACKET"
  | .rightBracket => "RBRACKET"
  | .unknown _ => "UNKNOWN"
  | .openText _ => "BAD_STRING"
  | .endOfLine => "EOF"

def shownValue : TokenKind → Option String
  | .identifier s | .text s | .comment s | .openText s => some (Text.quoted s)
  | .number n => some (toString n)
  | .real x => some x.text
  | .octal designator bits => some s!"({Text.quoted designator.toString}, {bits})"
  | .unknown c => some (Text.quoted c.toString)
  | _ => none

end TokenKind

/-- A token: its kind, its characters, the column of the first one, and whether blanks stand before it. -/
structure Token where
  kind : TokenKind
  text : String
  column : Nat
  spaceBefore : Bool
  deriving DecidableEq, Repr

structure LexicalRules where
  openQuote : Char
  closeQuote : Char
  /-- The character that starts a comment, if comments have one. -/
  commentMark : Option Char
  /-- Whether octal words are tokens. -/
  octalWords : Bool

/-- Texts of the symbolic dialect stand between double quotes, and comments follow a semicolon. -/
def symbolicRules : LexicalRules := ⟨'"', '"', some ';', false⟩

/-- Texts of the legacy dialect stand between angle brackets; it has octal words and unmarked comments. -/
def legacyRules : LexicalRules := ⟨'<', '>', none, true⟩

inductive LexError where
  | lineBreak
  | integer (error : Text.NumeralError)
  /-- The numeral of a real with a digit that has no decimal value. -/
  | real (numeral : String)
  deriving DecidableEq, Repr

def LexError.message : LexError → String
  | .lineBreak => "Lexer works on a single line"
  | .integer error => error.message
  | .real numeral => s!"could not convert string to float: {Text.quoted numeral}"

namespace Token

def isGap (c : Char) : Bool :=
  c == ' ' || c == '\t'

/-! ## Numerals -/

/-- A numeral cut into its parts; the exponent keeps its sign. -/
structure Numeral where
  whole : List Char
  fraction : Option (List Char)
  exponent : Option (List Char × List Char)

namespace Numeral

/-- The fraction at the start of the characters after the whole part: a point and digits. -/
def fraction? (cs : List Char) : Option (List Char) :=
  match cs with
  | '.' :: d :: rest => if Text.isDigit d then some (d :: rest.takeWhile Text.isDigit) else none
  | _ => none

/-- Sign and digits of an exponent: an at sign, perhaps a sign, and one or two digits. -/
def exponent? (cs : List Char) : Option (List Char × List Char) :=
  match cs with
  | '@' :: rest =>
    let sign := rest.take 1 |>.filter fun c => c == '+' || c == '-'
    let digits := ((rest.drop sign.length).takeWhile Text.isDigit).take 2
    if digits.isEmpty then none else some (sign, digits)
  | _ => none

def scan (cs : List Char) : Numeral :=
  let whole := cs.takeWhile Text.isDigit
  let fraction := fraction? (cs.drop whole.length)
  let read := whole.length + (fraction.elim 0 (·.length + 1))
  ⟨whole, fraction, exponent? (cs.drop read)⟩

def width (n : Numeral) : Nat :=
  n.whole.length + n.fraction.elim 0 (·.length + 1)
    + n.exponent.elim 0 fun (sign, digits) => sign.length + digits.length + 1

/-- The numeral with a point and the letter `e`, as messages show it. -/
def realText (n : Numeral) : String :=
  let orZero (cs : List Char) : List Char := if cs.isEmpty then ['0'] else cs
  String.ofList (orZero n.whole ++ '.' :: orZero (n.fraction.getD [])
    ++ n.exponent.elim [] fun (sign, digits) => 'e' :: sign ++ digits)

def exponentValue? (n : Numeral) : Option Int :=
  match n.exponent with
  | none => some 0
  | some (sign, digits) =>
    (Text.natOfDigits? digits).map fun e => if sign == ['-'] then -(e : Int) else e

/-- The token of a numeral: an integer if there is neither fraction nor exponent. -/
def kind (n : Numeral) : Except LexError TokenKind :=
  if n.fraction.isNone && n.exponent.isNone then
    match Text.readNumeral n.whole with
    | .ok value => .ok (.number value)
    | .error e => .error (.integer e)
  else
    let fraction := n.fraction.getD []
    match Text.natOfDigits? (n.whole ++ fraction), n.exponentValue? with
    | some digits, some e => .ok (.real (.ofDecimal false digits (e - fraction.length)))
    | _, _ => .error (.real n.realText)

end Numeral

/-! ## Other tokens -/

def scanText (rules : LexicalRules) (rest : List Char) : TokenKind × Nat :=
  let content := rest.takeWhile (· != rules.closeQuote)
  if content.length < rest.length then (.text (String.ofList content), content.length + 1)
  else (.openText (String.ofList content), content.length)

def octalWord? (rest : List Char) : Option TokenKind :=
  match rest with
  | designator :: more =>
    let digits := more.take 8
    if ['S', 'P', 'F', 'I'].contains designator && digits.length == 8
        && digits.all (fun c => '0' ≤ c && c ≤ '7') && (more.drop 8).head? == some ')' then
      some (.octal designator (digits.foldl (fun n c => n * 8 + (c.toNat - '0'.toNat)) 0))
    else none
  | [] => none

def punctuation? (c : Char) : Option TokenKind :=
  match c with
  | '+' => some .plus
  | '-' => some .minus
  | '*' => some .star
  | ',' => some .comma
  | ':' => some .colon
  | '[' => some .leftBracket
  | ']' => some .rightBracket
  | _ => none

/-- The token that starts with `c`, and how many of the characters after `c` belong to it. -/
def scan (rules : LexicalRules) (c : Char) (rest : List Char) : Except LexError (TokenKind × Nat) :=
  if rules.commentMark = some c then .ok (.comment (String.ofList rest), rest.length)
  else if c = rules.openQuote then .ok (scanText rules rest)
  else
    match (if rules.octalWords && c == '(' then octalWord? rest else none) with
    | some kind => .ok (kind, 10)
    | none =>
      if Text.isDigit c || (c == '.' && rest.head?.any Text.isDigit) then
        let numeral := Numeral.scan (c :: rest)
        numeral.kind.map (·, numeral.width - 1)
      else if c.isAlpha then
        let name := rest.takeWhile Char.isAlphanum
        .ok (.identifier (String.ofList (c :: name)), name.length)
      else .ok ((punctuation? c).getD (.unknown c), 0)

/-- The tokens of a list of characters that starts at a column; `spaced` says whether a blank stands
before it. The last token is the end of the line. -/
def scanAll (rules : LexicalRules) (cs : List Char) (column : Nat) (spaced : Bool) :
    Except LexError (List Token) :=
  match cs with
  | [] => .ok [⟨.endOfLine, "", column, spaced⟩]
  | c :: rest =>
    if isGap c then scanAll rules rest (column + 1) true
    else do
      let (kind, n) ← scan rules c rest
      let others ← scanAll rules (rest.drop n) (column + 1 + n) false
      return ⟨kind, String.ofList (c :: rest.take n), column, spaced⟩ :: others
termination_by cs.length
decreasing_by
  · simp
  · simp only [List.length_drop, List.length_cons]; omega

def ofLine (rules : LexicalRules) (line : String) : Except LexError (List Token) :=
  if line.toList.contains '\n' then .error .lineBreak else scanAll rules line.toList 1 false

/-! ## Token lists -/

def nowhere : Token := ⟨.endOfLine, "", 1, false⟩

def current (tokens : List Token) : Token :=
  tokens.headD nowhere

/-- The tokens after the first; the end of the line is never passed. -/
def advance : List Token → List Token
  | [] => []
  | [last] => [last]
  | _ :: rest => rest

def second (tokens : List Token) : Token :=
  current (advance tokens)

/-- The column of the last of the tokens that a parser read, given what it started with and left. -/
def lastColumn (start left : List Token) : Nat :=
  ((start.take (start.length - left.length)).getLast?.getD nowhere).column

def describe (t : Token) : String :=
  match t.kind with
  | .endOfLine => "end of line"
  | .openText _ => "unterminated string"
  | _ => s!"'{t.text}'"

/-- The token of a line in full: kind, value and place. -/
def shown (t : Token) (line : Int) : String :=
  let value := t.kind.shownValue.elim "" fun v => s!"{v}, "
  s!"Token({t.kind.name}, {value}{line}:{t.column})"

end Token

end WordMachine.Source
