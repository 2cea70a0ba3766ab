import WordMachine.Assembler
import WordMachine.Legacy.Program
import WordMachine.Listing
import WordMachine.Text.Capital
/-!
The dialects by name: the symbolic one, whose programs are assembled and run, and the legacy one, whose
programs are checked and listed.
-/
namespace WordMachine

inductive Dialect where
  | symbolic | legacy
  deriving DecidableEq, Repr

/-- Why something cannot be done in a dialect. -/
inductive DialectError where
  | unknown (name : String)
  | notExecutable
  deriving DecidableEq, Repr

inductive Program where
  | symbolic (assembly : Assembly)
  | legacy (program : Legacy.Program)

/-- What the work on a source text gives, whether or not it can be assembled. -/
structure Product where
  outcome : Except Refusal Program
  listing : List ListingLine

namespace Dialect

def all : List Dialect := [.symbolic, .legacy]

def name : Dialect → String
  | .symbolic => "bbcx"
  | .legacy => "bbc3"

def isExecutable : Dialect → Bool
  | .symbolic => true
  | .legacy => false

/-- The dialect of a name in capitals or small letters. -/
def ofName? (name : String) : Option Dialect :=
  all.find? (·.name == Text.inSmallLetters name)

def choices : String :=
  ", ".intercalate (all.map Dialect.name)

/-- The dialect of a name; the symbolic one if no name is given. -/
def select (name : Option String) : Except DialectError Dialect :=
  match name with
  | none | some "" => .ok .symbolic
  | some name => (ofName? name).elim (.error (.unknown name)) .ok

def build (d : Dialect) (settings : AssemblySettings) (source file : String) : Warned Product :=
  match d with
  | .symbolic => ((Assembler.new settings).assemble source file).map fun (assembler, outcome) =>
    ⟨outcome.map .symbolic, assembler.listing⟩
  | .legacy => (Legacy.Checker.assemble {} source file).map fun (checker, outcome) =>
    ⟨outcome.map .legacy, checker.listing⟩

def assemble (d : Dialect) (settings : AssemblySettings) (source file : String) :
    Warned (Except Refusal Program) :=
  (d.build settings source file).map (·.outcome)

end Dialect

def DialectError.message : DialectError → String
  | .unknown name => s!"unknown language '{name}' (choose from {Dialect.choices})"
  | .notExecutable => s!"{Dialect.legacy.name} programs can be listed but not run"

/-- The assembly to run, if the program is of a dialect that can be run. -/
def Program.executable : Program → Except DialectError Assembly
  | .symbolic assembly => .ok assembly
  | .legacy _ => .error .notExecutable

def Product.labels (p : Product) : List (String × Int) :=
  match p.outcome with
  | .ok (.symbolic assembly) => assembly.labels
  | .ok (.legacy _) | .error _ => []

def Product.listingText (p : Product) (title : String) : String :=
  Listing.render p.listing title p.labels

end WordMachine
