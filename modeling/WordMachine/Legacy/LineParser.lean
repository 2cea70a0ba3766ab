import WordMachine.Legacy.Line
import WordMachine.Legacy.Vocabulary
import WordMachine.Source.LineParser
/-!
Reading lines of the legacy dialect:

    line     = location word [comment]
    word     = text | octal word | number | take operand | put address
             | load address ":" index | load (constant | address) ":" index | routine
    address  = ["*"] (label | location | offset "+") [":" index]

The accumulator is left out, or the digit two, which stands directly after the mnemonic or before the
operand. Blanks end the location and the word, and what stands after them is the comment, character for
character. A blank line is no line.
-/
namespace WordMachine.Legacy

open Numeric Source

namespace LineParser

def textCharacters : List Char :=
  "ABCDEFGHIJKLMNOPQRSTUVWXYZ0123456789+-@.<>'*/:)=?^~#; ".toList

/-- A text of one to four characters that a text may hold. -/
def textContent (content : String) (column : Nat) : Except Complaint String :=
  let length := content.length
  if length = 0 ∨ Charset.charsPerWord < length then .error ⟨.textLength length, column⟩
  else
    match content.toList.find? fun c => !textCharacters.contains c with
    | some c => .error ⟨.forbiddenCharacter c, column⟩
    | none => .ok content

/-- A digit two before the operand; it is the accumulator only if something follows it after a blank. -/
def accumulator (tokens : List Token) : Option Nat × List Token :=
  let next := Token.second tokens
  match (Token.current tokens).kind, next.kind with
  | .number _, .endOfLine => (none, tokens)
  | .number n, _ =>
    if n = Vocabulary.alternateAccumulator ∧ next.spaceBefore then (some n, Token.advance tokens)
    else (none, tokens)
  | _, _ => (none, tokens)

def constant? (tokens : List Token) : Except Complaint (Option (Constant × List Token)) :=
  let first := Token.current tokens
  match first.kind with
  | .text content => do
    let text ← textContent content first.column
    return some (.text text, Token.advance tokens)
  | .octal designator bits => .ok (some (.octal ⟨designator, bits⟩, Token.advance tokens))
  | _ =>
    match signedNumber? tokens with
    | none => .ok none
    | some (value, column, rest) => do
      let value ← fitting value column
      return some (.ofNumber value, rest)

def simpleAddress (tokens : List Token) : Except Complaint (SimpleAddress × List Token) :=
  let (indirect, tokens) :=
    match (Token.current tokens).kind with
    | .star => (true, Token.advance tokens)
    | _ => (false, tokens)
  let rest := Token.advance tokens
  match (Token.current tokens).kind with
  | .identifier name => .ok (⟨.label name, indirect⟩, rest)
  | .number n =>
    let next := Token.current rest
    if next.kind = .plus ∧ !next.spaceBefore then .ok (⟨.relative n, indirect⟩, Token.advance rest)
    else .ok (⟨.location n, indirect⟩, rest)
  | _ => unexpected legacyRules tokens "an address"

/-- A colon and an index of one or two digits, without blanks. -/
def index (tokens : List Token) : Except Complaint (Nat × List Token) :=
  let colon := Token.current tokens
  if colon.kind ≠ .colon ∨ colon.spaceBefore then unexpected legacyRules tokens "':' and an index"
  else
    let rest := Token.advance tokens
    let digits := Token.current rest
    match digits.kind with
    | .number n =>
      if digits.spaceBefore ∨ 2 < digits.text.length then complain rest .longIndex
      else .ok (n, Token.advance rest)
    | _ => complain rest .longIndex

def indexedAddress (tokens : List Token) : Except Complaint (IndexedAddress × List Token) := do
  let (address, rest) ← simpleAddress tokens
  let colon := Token.current rest
  if colon.kind = .colon ∧ !colon.spaceBefore then
    let (n, rest) ← index rest
    return (⟨address, some n⟩, rest)
  else return (⟨address, none⟩, rest)

def operand (tokens : List Token) : Except Complaint (Operand × List Token) := do
  match ← constant? tokens with
  | some (c, rest) => return (.constant c, rest)
  | none =>
    let (a, rest) ← indexedAddress tokens
    return (.address a, rest)

def loadOperand (tokens : List Token) : Except Complaint (LoadOperand × List Token) := do
  match ← constant? tokens with
  | some (c, rest) => return (.constant c, rest)
  | none =>
    let (a, rest) ← simpleAddress tokens
    return (.address a, rest)

def instruction (name : String) (tokens : List Token) : Except Complaint (Content × List Token) :=
  let (mnemonic, suffix) := Vocabulary.splitAccumulator name
  let afterName := Token.advance tokens
  let (acc, rest) := if suffix.isSome then (suffix, afterName) else accumulator afterName
  match Vocabulary.group? mnemonic with
  | none => complain tokens (.unknownMnemonic name [])
  | some .library => .ok (.library mnemonic, afterName)
  | some .take => do
    let (o, rest) ← operand rest
    return (.take mnemonic acc o, rest)
  | some .put => do
    let (a, rest) ← indexedAddress rest
    return (.put mnemonic acc a, rest)
  | some .loadNumber => do
    let (a, rest) ← simpleAddress rest
    let (n, rest) ← index rest
    return (.loadNumber acc a n, rest)
  | some .loadRegister => do
    let (o, rest) ← loadOperand rest
    let (n, rest) ← index rest
    return (.loadRegister acc o n, rest)

def numberContent (value : Number) (column : Nat) : Except Complaint Content :=
  (fitting value column).map fun
    | .integer n => .integer n
    | .real x => .real x

def content (tokens : List Token) : Except Complaint (Content × List Token) :=
  let first := Token.current tokens
  let rest := Token.advance tokens
  match first.kind with
  | .text content => (textContent content first.column).map fun s => (.text s, rest)
  | .octal designator bits => .ok (.octal ⟨designator, bits⟩, rest)
  | .identifier name => instruction name tokens
  | .number n => (numberContent (.integer n) first.column).map (·, rest)
  | .real x => (numberContent (.real x) first.column).map (·, rest)
  | _ =>
    match signedNumber? tokens with
    | some (value, column, rest) => (numberContent value column).map (·, rest)
    | none => unexpected legacyRules tokens "a word"

def comment (tokens : List Token) (text : String) : Except Complaint String :=
  let next := Token.current tokens
  match next.kind with
  | .endOfLine => .ok ""
  | _ =>
    if next.spaceBefore then .ok (String.ofList (text.toList.drop (next.column - 1)))
    else complain tokens (.afterWord next.describe)

/-- Location, word and comment of a line that is not blank. -/
def parts (tokens : List Token) (text : String) : Except Complaint (Nat × Content × String) :=
  match (Token.current tokens).kind with
  | .number location => do
    let rest := Token.advance tokens
    let next := Token.current rest
    if next.kind = .endOfLine ∨ !next.spaceBefore then complain rest .missingWord
    let (word, rest) ← content rest
    let comment ← comment rest text
    return (location, word, comment)
  | _ => complain tokens .missingLocation

end LineParser

namespace Line

/-- The line that a list of tokens makes; none if there is only the end of the line. -/
def ofTokens (tokens : List Token) (text file : String) (number : Int) :
    Except Diagnostic (Option Line) :=
  match (Token.current tokens).kind with
  | .endOfLine => .ok none
  | _ =>
    match LineParser.parts tokens text with
    | .error complaint => .error (complaint.diagnostic text file number)
    | .ok (location, content, comment) => .ok (some { number, text, location, content, comment, file })

def parse (text file : String) (number : Int) :
    Except LexError (Warned (Except Diagnostic (Option Line))) := do
  let text := dropReturns text
  let tokens ← Token.ofLine legacyRules text
  return ⟨ofTokens tokens text file number, []⟩

end Line

def parseSource (source file : String) : Warned (Except LexError (ParsedFile Line)) :=
  ParsedFile.read Line.parse source file

end WordMachine.Legacy
