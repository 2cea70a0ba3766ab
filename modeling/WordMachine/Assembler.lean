import WordMachine.Layout
import WordMachine.Source.LineParser
/-!
An assembler for source texts of the symbolic dialect. It remembers its last work, so that a file can be
listed whether or not it could be assembled.
-/
namespace WordMachine

open Source

/-- The failure of a file: its diagnostics, and for each line whether it could be read. -/
structure AssemblyFailure where
  errors : List Diagnostic
  linesRead : List Bool
  deriving Repr

def AssemblyFailure.diagnostic (f : AssemblyFailure) : Diagnostic :=
  .failure f.errors

/-- Why a source text gives no program. -/
inductive Refusal where
  | failed (failure : AssemblyFailure)
  /-- A line that has no tokens. -/
  | unreadable (error : LexError)
  /-- A number that a message needs is too long to be written. -/
  | unwritable
  deriving Repr

/-- A failure with the diagnostics of the lines that could not be read. -/
def parseFailure {L : Type} (parsed : ParsedFile L) (errors : List Diagnostic) : AssemblyFailure :=
  ⟨errors, parsed.results.map (·.ok)⟩

/-- An assembler and what it remembers. -/
structure Assembler where
  settings : AssemblySettings
  /-- The results for the lines of the last source text. -/
  parsed : Option (ParsedFile Line) := none
  assembly : Option Assembly := none
  failure : Option AssemblyFailure := none
  /-- What the last two passes left. -/
  generation : Generation := ⟨[], { limit := settings.maxErrors }, .error (.failed [])⟩

namespace Assembler

def new (settings : AssemblySettings) : Assembler :=
  { settings }

/-- Assembles a source text. A text with lines that cannot be read is not assembled any further. A log message
about an assembly shows the origin; if that cannot be written the assembly is kept, but not returned. -/
def assemble (a : Assembler) (source file : String) : Warned (Assembler × Except Refusal Assembly) :=
  (parseSource source file).map fun
    | .error e => ({ a with assembly := none, failure := none }, .error (.unreadable e))
    | .ok parsed =>
      if parsed.ok then
        let generation := generate a.settings parsed.lines file
        match generation.outcome with
        | .ok assembly =>
          ({ a with parsed, generation, assembly := some assembly, failure := none },
            if Text.isWritable a.settings.origin then .ok assembly else .error .unwritable)
        | .error (.failed errors) =>
          let failure := parseFailure parsed errors
          ({ a with parsed, generation, assembly := none, failure := some failure },
            .error (.failed failure))
        | .error .unwritable =>
          ({ a with parsed, generation, assembly := none, failure := none }, .error .unwritable)
      else
        let failure := parseFailure parsed parsed.errors
        ({ a with parsed, assembly := none, failure := some failure }, .error (.failed failure))

/-- The labels of the last assembly. A program without words has none to show. -/
def labels (a : Assembler) : List (String × Int) :=
  match a.assembly with
  | some assembly => if assembly.words.isEmpty then [] else assembly.labels
  | none => []

/-- The listing of a file that was not assembled: its lines, and why some could not be read. -/
def failedListing (parsed : ParsedFile Line) : List ListingLine :=
  parsed.results.map fun r =>
    { number := r.number, text := r.text, label := r.line?.bind (·.label)
      error := r.error?.map (·.text) }

def listing (a : Assembler) : List ListingLine :=
  match a.assembly, a.parsed with
  | some assembly, _ => assembly.listing
  | none, some parsed => failedListing parsed
  | none, none => []

def hasErrors (a : Assembler) : Bool :=
  a.failure.isSome

/-- The message of the last failure; empty if there was none. -/
def errorReport (a : Assembler) : String :=
  a.failure.elim "" (·.diagnostic.message)

end Assembler

def assembleSource (settings : AssemblySettings) (source file : String) :
    Warned (Except Refusal Assembly) :=
  ((Assembler.new settings).assemble source file).map (·.2)

end WordMachine
