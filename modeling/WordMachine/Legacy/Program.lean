import WordMachine.Assembler
import WordMachine.Legacy.LineParser
/-!
Programs of the legacy dialect. They are checked and listed, and not run: a program is the map from
locations to lines, and no two lines may have one location. Each line whose location an earlier line has
is reported.
-/
namespace WordMachine.Legacy

open Source

/-- A checked program: its lines, each with another location, in the order of the source. -/
structure Program where
  lines : List Line
  file : String
  deriving Repr

namespace Program

def length (p : Program) : Nat :=
  p.lines.length

def lineAt? (p : Program) (location : Nat) : Option Line :=
  p.lines.find? (·.location == location)

def byLocation (p : Program) : List Line :=
  p.lines.mergeSort fun a b => decide (a.location ≤ b.location)

end Program

def Line.site (l : Line) : Site :=
  ⟨l.file, l.number, 1⟩

def repeated (line first : Line) : Diagnostic :=
  .problem (.duplicateLocation line.location (some first.site)) (some line.site) (some line.text)

def place (placed : List Line × List Diagnostic) (line : Line) : List Line × List Diagnostic :=
  match placed.1.find? (·.location == line.location) with
  | some first => (placed.1, placed.2 ++ [repeated line first])
  | none => (placed.1 ++ [line], placed.2)

/-- The program of a list of lines, or the reports of the lines whose location is taken. -/
def Program.ofLines (lines : List Line) (file : String) : Except (List Diagnostic) Program :=
  let (placed, errors) := lines.foldl place ([], [])
  if errors.isEmpty then .ok ⟨placed, file⟩ else .error errors

/-- A checker for source texts of the legacy dialect, which remembers the lines of the last one. -/
structure Checker where
  parsed : Option (ParsedFile Line) := none

namespace Checker

def assemble (c : Checker) (source file : String) : Warned (Checker × Except Refusal Program) :=
  (parseSource source file).map fun
    | .error e => (c, .error (.unreadable e))
    | .ok parsed =>
      let outcome : Except (List Diagnostic) Program :=
        if parsed.ok then Program.ofLines parsed.lines file else .error parsed.errors
      (⟨some parsed⟩, outcome.mapError fun errors => .failed (parseFailure parsed errors))

/-- The listing of the last source text: each line that could be read with its location. -/
def listing (c : Checker) : List ListingLine :=
  c.parsed.elim [] fun parsed => parsed.results.map fun r =>
    { number := r.number, text := r.text
      locations := (r.line?.elim [] fun line => [Int.ofNat line.location])
      error := r.error?.map (·.text) }

end Checker

end WordMachine.Legacy
