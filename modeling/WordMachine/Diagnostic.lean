import WordMachine.Instruction
/-!
Problems found in source text. A diagnostic has a cause, and where known a site and the source line; its
message shows the site, the cause, the line with a caret under the column, and a hint. A failure gathers
the diagnostics of one file.
-/
namespace WordMachine

/-- A place in a source file. Lines and columns count from one; column zero points nowhere on the line. -/
structure Site where
  file : String
  line : Int
  column : Int
  deriving DecidableEq, Repr

def Site.text (s : Site) : String :=
  s!"{s.file}:{s.line}:{s.column}"

/-- Whether the site can be shown. A column is a place in a text, and never too long to be written. -/
def Site.isWritable (s : Site) : Bool :=
  Text.isWritable s.line

/-- Why a line is not well formed. -/
inductive Malformed where
  /-- Something else stands where one of the wanted things should. -/
  | expected (wanted found : String)
  /-- A text whose closing quote is missing. -/
  | unterminated (closing : Char)
  /-- Something follows the word of the line. -/
  | afterWord (found : String)
  /-- A name that is no mnemonic, with the names it resembles. -/
  | unknownMnemonic (name : String) (similar : List String)
  | routineOperand (routine : String)
  | needsAddress (mnemonic : String)
  | unsignedConstant
  | missingIndex
  | missingBracket
  /-- A value that no word can hold. -/
  | unfit (error : WordError)
  | textLength (length : Nat)
  | unsupportedCharacter (character : Char)
  | forbiddenCharacter (character : Char)
  | missingLocation
  | missingWord
  | longIndex
  /-- A problem described by its text, with a hint. -/
  | described (text : String) (hint : Option String)
  deriving DecidableEq, Repr

def Malformed.message : Malformed → String
  | .expected wanted found => s!"expected {wanted}, found {found}"
  | .unterminated closing => s!"unterminated string, expected closing '{closing}'"
  | .afterWord found => s!"unexpected {found} after word"
  | .unknownMnemonic name _ => s!"unknown mnemonic '{name}'"
  | .routineOperand routine => s!"library routine {routine} takes no operand"
  | .needsAddress mnemonic => s!"{mnemonic} needs an address, not a constant"
  | .unsignedConstant => "constant operands need a sign"
  | .missingIndex => "expected index register number"
  | .missingBracket => "expected ']' after index register"
  | .unfit error => error.message
  | .textLength length =>
    s!"string must hold 1 to {Charset.charsPerWord} characters, found {length}"
  | .unsupportedCharacter c =>
    s!"character {Text.quoted c.toString} is not in the character set"
  | .forbiddenCharacter c => s!"character {Text.quoted c.toString} is not allowed in a string"
  | .missingLocation => "expected location at start of line"
  | .missingWord => "expected whitespace then a word after the location"
  | .longIndex => "index must be 1 or 2 digits"
  | .described text _ => text

def Malformed.hint : Malformed → Option String
  | .unknownMnemonic _ similar =>
    if similar.isEmpty then none else
      let names := ", ".intercalate similar
      some s!"did you mean {names}?"
  | .needsAddress _ => some "only instructions that read their operand as a value take a literal"
  | .unsignedConstant => some "write +1.5 or -1.5"
  | .described _ hint => hint
  | _ => none

/-- The four kinds of problem that only show when locations and labels are known. -/
inductive AssemblyProblem where
  | undefinedLabel | duplicateLabel | duplicateLocation | fieldOverflow
  deriving DecidableEq, Repr

/-- Why a source file cannot be assembled. -/
inductive Cause where
  | malformed (problem : Malformed)
  /-- A label that no line defines, with labels that resemble it. -/
  | undefinedLabel (label : String) (similar : List String)
  | duplicateLabel (label : String) (original : Option Site)
  | duplicateLocation (location : Int) (original : Option Site)
  | fieldOverflow (overflow : FieldOverflow)
  /-- A program word at a location that the literal table needs; the table starts at `first`. -/
  | literalOverlap (location first : Int)
  /-- The limit on the number of diagnostics is reached. -/
  | stopped (text : String)
  /-- A problem of one of the four kinds, described by its text. -/
  | assembly (kind : AssemblyProblem) (text : String) (hint : Option String)
  /-- A problem described by its text. -/
  | described (text : String) (hint : Option String)
  /-- A number that the text of the problem needs is too long to be written. -/
  | unwritable
  deriving DecidableEq, Repr

def FieldError.cause : FieldError → Cause
  | .overflow o => .fieldOverflow o
  | .unwritable => .unwritable

namespace Cause

/-- What a collector says when it has gathered as many diagnostics as its limit. -/
def limitReached (limit : Int) : Cause :=
  .stopped s!"Too many errors ({limit}), stopping"

def message : Cause → String
  | .malformed problem => problem.message
  | .undefinedLabel label _ => s!"undefined label '{label}'"
  | .duplicateLabel label _ => s!"duplicate label '{label}'"
  | .duplicateLocation location _ => s!"location {Text.locationText location} used more than once"
  | .fieldOverflow o => s!"{o.field} {o.value} out of range"
  | .literalOverlap location _ =>
    s!"location {Text.locationText location} is needed by the literal table"
  | .stopped text | .assembly _ text _ | .described text _ => text
  | .unwritable => Text.unwritableMessage

def hint : Cause → Option String
  | .malformed problem => problem.hint
  | .undefinedLabel _ similar =>
    if similar.isEmpty then none else
      let names := ", ".intercalate ((similar.take 3).map fun name => s!"'{name}'")
      some s!"did you mean {names}?"
  | .duplicateLabel label original =>
    original.map fun site => s!"'{label}' was first defined at {site.text}"
  | .duplicateLocation location original =>
    original.map fun site =>
      s!"location {Text.locationText location} was first used at {site.text}"
  | .fieldOverflow o => some s!"{o.field} must be in {o.low}..{o.high}"
  | .literalOverlap _ first => some s!"literals occupy {Text.locationText first} upwards"
  | .stopped _ | .unwritable => none
  | .assembly _ _ hint | .described _ hint => hint

/-- The kind of a problem that needs locations and labels; none for the others. -/
def kind? : Cause → Option AssemblyProblem
  | .undefinedLabel .. => some .undefinedLabel
  | .duplicateLabel .. => some .duplicateLabel
  | .duplicateLocation .. | .literalOverlap .. => some .duplicateLocation
  | .fieldOverflow _ => some .fieldOverflow
  | .assembly kind _ _ => some kind
  | .malformed _ | .stopped _ | .described .. | .unwritable => none

/-- Whether the numbers in message and hint can be written. Those of the other problems are the lengths of
texts or were read from the source. -/
def isWritable : Cause → Bool
  | .duplicateLabel _ original => original.all Site.isWritable
  | .duplicateLocation location original => Text.isWritable location && original.all Site.isWritable
  | .fieldOverflow o => o.isWritable
  | .literalOverlap location first => Text.isWritable location && Text.isWritable first
  | .unwritable => false
  | _ => true

end Cause

/-- One problem, or the failure of a file with all of its problems. -/
inductive Diagnostic where
  | problem (cause : Cause) (site : Option Site) (sourceLine : Option String)
  | failure (errors : List Diagnostic)
  deriving Repr

def errorCount (n : Nat) : String :=
  if n = 1 then "1 error" else s!"{n} errors"

/-- Messages one after the other, with an empty line after each, and their count at the end. -/
def reportOf (messages : List String) : String :=
  "\n".intercalate (messages.flatMap (fun message => [message, ""]) ++ [errorCount messages.length])

def failureText (messages : List String) : String :=
  s!"assembly failed with {errorCount messages.length}:\n\n{reportOf messages}"

/-- A message in full: the site, what is wrong, the source line with a caret, and the hint. -/
def layOut (text : String) (site : Option Site) (sourceLine hint : Option String) : String :=
  let heading :=
    match site with
    | some s => s!"{s.text}: error: {text}"
    | none => s!"error: {text}"
  let context :=
    match sourceLine, site with
    | some line, some s =>
      ("    " ++ line) :: if 0 < s.column then ["".pushn ' ' (3 + s.column.toNat) ++ "^"] else []
    | _, _ => []
  let advice :=
    match hint with
    | some h => if h.isEmpty then [] else [s!"hint: {h}"]
    | none => []
  "\n".intercalate (heading :: context ++ advice)

namespace Diagnostic

mutual

/-- What is wrong, without site, source line and hint. -/
def text : Diagnostic → String
  | .problem cause _ _ => cause.message
  | .failure errors => failureText (messages errors)

def message : Diagnostic → String
  | .problem cause site sourceLine => layOut cause.message site sourceLine cause.hint
  | .failure errors => layOut (failureText (messages errors)) none none none

def messages : List Diagnostic → List String
  | [] => []
  | d :: rest => d.message :: messages rest

end

def site : Diagnostic → Option Site
  | .problem _ site _ => site
  | .failure _ => none

def sourceLine : Diagnostic → Option String
  | .problem _ _ line => line
  | .failure _ => none

def hint : Diagnostic → Option String
  | .problem cause _ _ => cause.hint
  | .failure _ => none

def report (errors : List Diagnostic) : String :=
  reportOf (messages errors)

def isWritable : Diagnostic → Bool
  | .problem cause site _ => cause.isWritable && site.all Site.isWritable
  | .failure _ => true

end Diagnostic

/-- Gathers the diagnostics of one file, up to a limit. The last one may have a message that cannot be
written; nothing is gathered after it, and it is not kept. -/
structure Collector where
  limit : Int
  errors : List Diagnostic := []

namespace Collector

/-- The diagnostics whose messages can be written. -/
def kept (c : Collector) : List Diagnostic :=
  c.errors.filter (·.isWritable)

/-- Whether the message of some diagnostic cannot be written. -/
def isBroken (c : Collector) : Bool :=
  c.errors.any (!·.isWritable)

/-- Whether some diagnostic has made the collector reach its limit. -/
def isAtLimit (c : Collector) : Bool :=
  !c.errors.isEmpty && decide (c.limit ≤ c.errors.length)

def isFull (c : Collector) : Bool :=
  c.isBroken || c.isAtLimit

def hasErrors (c : Collector) : Bool :=
  !c.kept.isEmpty

def stop (c : Collector) : Diagnostic :=
  .problem (.limitReached c.limit) none none

/-- Adds a diagnostic; it is kept also when it makes the collector full. -/
def add (c : Collector) (d : Diagnostic) : Collector :=
  { c with errors := c.errors ++ [d] }

def report (c : Collector) : String :=
  Diagnostic.report c.kept

end Collector

end WordMachine
