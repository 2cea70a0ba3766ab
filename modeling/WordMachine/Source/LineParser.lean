import WordMachine.Source.Line
import WordMachine.Source.Token
import WordMachine.Text.Lines
import WordMachine.Text.Similar
import WordMachine.Warning
/-!
Reading lines of the symbolic dialect:

    line     = [location] [label ":"] [word] [";" comment]
    word     = mnemonic [accumulator ","] [operand] | number | text
    operand  = ["*"] (label | location) ["[" index "]"] | signed number | text

A number at the start of a line is its location if something other than a comment follows it after a
blank. A sign belongs to a number only if no blank stands between them. Each line is read on its own and
gives a line, or a complaint with the column it is about; a file gives one result for each of its lines.
-/
namespace WordMachine.Source

open Numeric

structure Complaint where
  problem : Malformed
  column : Nat
  deriving DecidableEq, Repr

/-- A complaint about the first of the tokens that are left. -/
def complain {α : Type} (tokens : List Token) (problem : Malformed) : Except Complaint α :=
  .error ⟨problem, (Token.current tokens).column⟩

/-- A complaint that something else was wanted than the first of the tokens that are left. -/
def unexpected {α : Type} (rules : LexicalRules) (tokens : List Token) (wanted : String) :
    Except Complaint α :=
  let token := Token.current tokens
  match token.kind with
  | .openText _ => complain tokens (.unterminated rules.closeQuote)
  | _ => complain tokens (.expected wanted token.describe)

/-! ## Parts that both dialects share -/

def signedNumber? (tokens : List Token) : Option (Number × Nat × List Token) :=
  let sign := Token.current tokens
  let number := Token.second tokens
  let rest := Token.advance (Token.advance tokens)
  if number.spaceBefore then none
  else
    match sign.kind, number.kind with
    | .plus, .number n => some (.integer n, sign.column, rest)
    | .plus, .real x => some (.real x, sign.column, rest)
    | .minus, .number n => some (.integer (-n), sign.column, rest)
    | .minus, .real x => some (.real x.neg, sign.column, rest)
    | _, _ => none

def fitting (value : Number) (column : Nat) : Except Complaint Number :=
  match Word.ofNumber value with
  | .error e => .error ⟨.unfit e, column⟩
  | .ok _ => .ok value

def numberConstant (value : Number) (column : Nat) : Except Complaint Constant :=
  .ofNumber <$> fitting value column

/-- A text as a constant: one to four characters of the character set. -/
def textConstant (content : String) (column : Nat) : Except Complaint Constant :=
  let length := content.length
  if length = 0 ∨ Charset.charsPerWord < length then .error ⟨.textLength length, column⟩
  else
    match content.toList.find? fun c => !Charset.supports c with
    | some c => .error ⟨.unsupportedCharacter c, column⟩
    | none => .ok (.text content)

/-! ## Parts of a line -/

namespace LineParser

def location (tokens : List Token) : Option Nat × List Token :=
  let next := Token.second tokens
  match (Token.current tokens).kind, next.kind with
  | .number _, .endOfLine | .number _, .comment _ => (none, tokens)
  | .number n, _ => if next.spaceBefore then (some n, Token.advance tokens) else (none, tokens)
  | _, _ => (none, tokens)

def label (tokens : List Token) : Option String × List Token :=
  match (Token.current tokens).kind, (Token.second tokens).kind with
  | .identifier name, .colon => (some name, Token.advance (Token.advance tokens))
  | _, _ => (none, tokens)

/-- The accumulator of an instruction: a number with a comma. -/
def accumulator (tokens : List Token) : Option Nat × List Token :=
  match (Token.current tokens).kind, (Token.second tokens).kind with
  | .number n, .comma => (some n, Token.advance (Token.advance tokens))
  | _, _ => (none, tokens)

def index (tokens : List Token) : Except Complaint (Option Nat × List Token) :=
  match (Token.current tokens).kind with
  | .leftBracket =>
    let inside := Token.advance tokens
    match (Token.current inside).kind with
    | .number n =>
      let after := Token.advance inside
      match (Token.current after).kind with
      | .rightBracket => .ok (some n, Token.advance after)
      | _ => complain after .missingBracket
    | _ => complain inside .missingIndex
  | _ => .ok (none, tokens)

/-- An operand that names a location, which starts at `column`. -/
def address (tokens : List Token) (column : Nat) : Except Complaint (AddressOperand × List Token) := do
  let (indirect, tokens) :=
    match (Token.current tokens).kind with
    | .star => (true, Token.advance tokens)
    | _ => (false, tokens)
  let target ←
    match (Token.current tokens).kind with
    | .identifier name => .ok (Target.label name)
    | .number n => .ok (Target.location n)
    | _ => unexpected symbolicRules tokens "an address or constant"
  let (index, rest) ← index (Token.advance tokens)
  return (⟨target, index, indirect, column⟩, rest)

def operand (tokens : List Token) : Except Complaint (Option Operand × List Token) :=
  let first := Token.current tokens
  match first.kind with
  | .endOfLine | .comment _ => .ok (none, tokens)
  | .text content => do
    let value ← textConstant content first.column
    return (some (.constant value first.column), Token.advance tokens)
  | .real _ => complain tokens .unsignedConstant
  | _ =>
    match signedNumber? tokens with
    | some (value, column, rest) => do
      let value ← numberConstant value column
      return (some (.constant value column), rest)
    | none => do
      let (a, rest) ← address tokens first.column
      return (some (.address a), rest)

def statement (name : String) (tokens : List Token) : Except Complaint (Statement × List Token) :=
  match Vocabulary.lookup? name with
  | none =>
    complain tokens
      (.unknownMnemonic name (Text.closeMatches (Text.capitalised name) Vocabulary.names))
  | some entry => do
    let (accumulator, start) := accumulator (Token.advance tokens)
    let (operand, rest) ← operand start
    match entry.routine, operand with
    | some routine, some _ => .error ⟨.routineOperand routine.name, Token.lastColumn start rest⟩
    | some routine, none =>
      let implied := AddressOperand.mk (.location routine.number) none false 0
      return (⟨entry.mnemonic, accumulator, some (.address implied), some routine⟩, rest)
    | none, some (.constant _ _) =>
      if entry.mnemonic.acceptsConstant then
        return (⟨entry.mnemonic, accumulator, operand, none⟩, rest)
      else complain rest (.needsAddress entry.mnemonic.name)
    | none, _ => return (⟨entry.mnemonic, accumulator, operand, none⟩, rest)

def content (tokens : List Token) : Except Complaint (Option Content × List Token) :=
  let first := Token.current tokens
  let one (value : Except Complaint Constant) : Except Complaint (Option Content × List Token) :=
    value.map fun c => (some (.constant c), Token.advance tokens)
  match first.kind with
  | .endOfLine | .comment _ => .ok (none, tokens)
  | .identifier name => do
    let (s, rest) ← statement name tokens
    return (some (.statement s), rest)
  | .number n => one (numberConstant (.integer n) first.column)
  | .real x => one (numberConstant (.real x) first.column)
  | .text content => one (textConstant content first.column)
  | _ =>
    match signedNumber? tokens with
    | some (value, column, rest) => do
      let c ← numberConstant value column
      return (some (.constant c), rest)
    | none => unexpected symbolicRules tokens "a mnemonic, number or string"

/-- The comment at the end of a line; nothing else may be left. -/
def comment (tokens : List Token) : Except Complaint (Option String) :=
  let (comment, rest) :=
    match (Token.current tokens).kind with
    | .comment text => (some text, Token.advance tokens)
    | _ => (none, tokens)
  match (Token.current rest).kind with
  | .endOfLine => .ok comment
  | _ => complain rest (.afterWord (Token.current rest).describe)

end LineParser

/-- The text without the carriage returns at its end. -/
def dropReturns (text : String) : String :=
  String.ofList ((text.toList.reverse.dropWhile (· == '\r')).reverse)

def Complaint.diagnostic (c : Complaint) (text file : String) (number : Int) : Diagnostic :=
  .problem (.malformed c.problem) (some ⟨file, number, c.column⟩) (some text)

namespace Line

def ofTokens (tokens : List Token) (text file : String) (number : Int) :
    Warned (Except Diagnostic Line) :=
  let (location, afterLocation) := LineParser.location tokens
  let (label, afterLabel) := LineParser.label afterLocation
  let warnings :=
    match label with
    | some name => if Vocabulary.knows name then [.shadowedMnemonic file number name] else []
    | none => []
  let line : Except Complaint Line := do
    let (content, rest) ← LineParser.content afterLabel
    let comment ← LineParser.comment rest
    return { number, text, location, label, content, comment, file }
  ⟨line.mapError fun c => c.diagnostic text file number, warnings⟩

def parse (text file : String) (number : Int) : Except LexError (Warned (Except Diagnostic Line)) := do
  let text := dropReturns text
  let tokens ← Token.ofLine symbolicRules text
  return ofTokens tokens text file number

end Line

/-! ## Whole files -/

/-- What became of one line of a file; a result may be nothing for a blank line. -/
structure LineResult (L : Type) where
  number : Nat
  text : String
  outcome : Except Diagnostic (Option L)

structure ParsedFile (L : Type) where
  file : String
  results : List (LineResult L)

namespace LineResult

variable {L : Type}

def ok (r : LineResult L) : Bool :=
  r.outcome.isOk

def line? (r : LineResult L) : Option L :=
  match r.outcome with
  | .ok line => line
  | .error _ => none

def error? (r : LineResult L) : Option Diagnostic :=
  match r.outcome with
  | .ok _ => none
  | .error d => some d

end LineResult

namespace ParsedFile

variable {L : Type}

def lines (p : ParsedFile L) : List L :=
  p.results.filterMap LineResult.line?

def errors (p : ParsedFile L) : List Diagnostic :=
  p.results.filterMap LineResult.error?

def ok (p : ParsedFile L) : Bool :=
  p.errors.isEmpty

/-- Reads lines of a file, the first of which has the given number. -/
def readFrom (parse : String → String → Int → Except LexError (Warned (Except Diagnostic (Option L))))
    (file : String) : Nat → List String → Warned (Except LexError (List (LineResult L)))
  | _, [] => ⟨.ok [], []⟩
  | number, text :: rest =>
    match parse text file number with
    | .error e => ⟨.error e, []⟩
    | .ok reading =>
      let others := readFrom parse file (number + 1) rest
      ⟨(⟨number, text, reading.value⟩ :: ·) <$> others.value, reading.warnings ++ others.warnings⟩

def read (parse : String → String → Int → Except LexError (Warned (Except Diagnostic (Option L))))
    (source file : String) : Warned (Except LexError (ParsedFile L)) :=
  (readFrom parse file 1 (Text.lines source)).map (·.map (⟨file, ·⟩))

end ParsedFile

def parseSource (source file : String) : Warned (Except LexError (ParsedFile Line)) :=
  ParsedFile.read (fun text file number => (Line.parse text file number).map (·.map (·.map some)))
    source file

end WordMachine.Source
