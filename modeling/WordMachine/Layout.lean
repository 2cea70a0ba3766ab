import WordMachine.Assembly
import WordMachine.Text.Similar
/-!
Assembling the lines of a file in two passes.

The first pass gives each line with a word a location: an explicit location moves the counter, the line
takes the counter's location, and the counter advances. It also binds labels and allocates a slot of the
literal table for each constant operand, from the top of memory downwards; equal constants share a slot.
The second pass encodes the words. Problems of both passes are gathered, and a file with any problem gives
no assembly. Both passes stop when as many problems are gathered as the limit allows, and at a problem whose
message cannot be written.
-/
namespace WordMachine

open Source

/-- What the assembling of a file can be told. -/
structure AssemblySettings where
  origin : Int := 8
  memorySize : Int := 2048
  maxErrors : Int := 100
  deriving DecidableEq, Repr

/-- A label, the location it is bound to, and the line that binds it. -/
structure LabelBinding where
  name : String
  location : Int
  site : Site
  deriving DecidableEq, Repr

/-- What the first pass knows after some lines. -/
structure Layout where
  counter : Int
  labels : List LabelBinding := []
  /-- The location of each line so far; none for a line without a word, or with a problem. -/
  places : List (Option Int) := []
  /-- The locations that are taken, each with the line that took it. -/
  taken : List (Int × Site) := []
  /-- The constants of the literal table, in the order of allocation. -/
  literals : List Constant := []
  collector : Collector

namespace Layout

/-- The slot of the literal table that is allocated after `count` others. -/
def slot (settings : AssemblySettings) (count : Nat) : Int :=
  settings.memorySize - 1 - count

def start (settings : AssemblySettings) : Layout :=
  { counter := settings.origin, collector := { limit := settings.maxErrors } }

def binding? (l : Layout) (name : String) : Option LabelBinding :=
  l.labels.find? (·.name == name)

def labelTable (l : Layout) : List (String × Int) :=
  l.labels.map fun b => (b.name, b.location)

def slotOf? (settings : AssemblySettings) (l : Layout) (c : Constant) : Option Int :=
  (l.literals.findIdx? (c.same ·)).map (slot settings)

def allocate (literals : List Constant) (c : Constant) : List Constant :=
  if literals.any (c.same ·) then literals else literals ++ [c]

/-- Binds the label of a line, if it has one, to the counter's location. -/
def bindLabel (l : Layout) (line : Line) : Except Cause Layout :=
  match line.label with
  | none => .ok l
  | some name =>
    match l.binding? name with
    | some first => .error (.duplicateLabel name (some first.site))
    | none => .ok { l with labels := l.labels ++ [⟨name, l.counter, line.site 1⟩] }

/-- Gives the word of a line the counter's location, advances the counter, and allocates the literal
that the word needs. -/
def place (settings : AssemblySettings) (l : Layout) (line : Line) (content : Content) :
    Except Cause Layout := do
  let location ← (checkField "location" l.counter 0 (settings.memorySize - 1)).mapError FieldError.cause
  match l.taken.lookup location with
  | some first => throw (.duplicateLocation location (some first))
  | none =>
    let literals :=
      match content with
      | .statement ⟨_, _, some (.constant c _), _⟩ => allocate l.literals c
      | _ => l.literals
    return { l with
      counter := location + 1
      places := l.places ++ [some location]
      taken := l.taken ++ [(location, line.site 1)]
      literals }

/-- The layout without a place for the line it comes to. -/
def passOver (l : Layout) : Layout :=
  { l with places := l.places ++ [none] }

/-- A problem about a line, at its first column. -/
def report (l : Layout) (line : Line) (cause : Cause) : Layout :=
  { l with collector := l.collector.add (.problem cause (some (line.site 1)) (some line.text)) }

/-- The layout after one more line. A line whose label is already bound gets no location, and after a
problem the counter stays. -/
def step (settings : AssemblySettings) (l : Layout) (line : Line) : Layout :=
  if l.collector.isFull then l.passOver
  else
    let l := { l with counter := line.location.elim l.counter Int.ofNat }
    match l.bindLabel line with
    | .error cause => (l.report line cause).passOver
    | .ok l =>
      match line.content with
      | none => l.passOver
      | some content =>
        match l.place settings line content with
        | .error cause => (l.report line cause).passOver
        | .ok l => l

def checkOverlap (settings : AssemblySettings) (l : Layout) (lines : List Line) : Layout :=
  let first := slot settings l.literals.length + 1
  (lines.zip l.places).foldl (fun l (line, place) =>
    match place with
    | some location =>
      if first ≤ location ∧ !l.collector.isFull then l.report line (.literalOverlap location first)
      else l
    | none => l) l

def ofLines (settings : AssemblySettings) (lines : List Line) : Layout :=
  (lines.foldl (step settings) (start settings)).checkOverlap settings lines

end Layout

/-! ## The second pass -/

namespace Encoding

def resolve (settings : AssemblySettings) (l : Layout) (operand : Option Operand) :
    Except Cause (Int × Nat) :=
  match operand with
  | none => .ok (0, 1)
  | some (.constant c column) => .ok ((l.slotOf? settings c).getD 0, column)
  | some (.address a) =>
    match a.target with
    | .location n => .ok (n, a.column)
    | .label name =>
      match l.binding? name with
      | some b => .ok (b.location, a.column)
      | none => .error (.undefinedLabel name (Text.closeMatches name (l.labels.map (·.name))))

def column : Option Operand → Nat
  | none => 1
  | some (.constant _ column) => column
  | some (.address a) => a.column

def draft (s : Statement) (address : Int) : InstructionDraft :=
  let (page, offset) := splitAddress address
  let (index, indirect) :=
    match s.operand with
    | some (.address a) => (a.index.map Int.ofNat, a.indirect)
    | _ => (none, false)
  { mnemonic := s.mnemonic, accumulator := s.effectiveAccumulator, offset, page, index, indirect }

def statement (settings : AssemblySettings) (l : Layout) (s : Statement) : Except Cause Word := do
  let (address, _) ← resolve settings l s.operand
  let address ← (checkField "address" address 0 (settings.memorySize - 1)).mapError FieldError.cause
  let instruction ← (draft s address).check.mapError FieldError.cause
  return instruction.encode

def content (settings : AssemblySettings) (l : Layout) (line : Line) : Content → Except Diagnostic Word
  | .constant c => .ok c.stored
  | .statement s =>
    (statement settings l s).mapError fun cause =>
      .problem cause (some (line.site (column s.operand))) (some line.text)

/-- What the second pass knows after some lines. -/
structure Progress where
  collector : Collector
  words : List AssembledWord := []
  listing : List ListingLine := []

def wordAt? (settings : AssemblySettings) (l : Layout) (line : Line) (place : Option Int) :
    Option (Int × Except Diagnostic Word) :=
  match place, line.content with
  | some location, some c => some (location, content settings l line c)
  | _, _ => none

/-- The second pass after one more line. -/
def step (settings : AssemblySettings) (l : Layout) (p : Progress) (entry : Line × Option Int) :
    Progress :=
  let (line, place) := entry
  let blank : ListingLine := { number := line.number, text := line.text, label := line.label }
  if p.collector.isFull then p
  else
    match wordAt? settings l line place with
    | none => { p with listing := p.listing ++ [blank] }
    | some (_, .error d) =>
      { p with collector := p.collector.add d, listing := p.listing ++ [blank] }
    | some (location, .ok word) =>
      { p with
        words := p.words ++ [⟨location, word, line.number⟩]
        listing := p.listing ++ [{ blank with locations := [location], words := [word] }] }

def ofLines (settings : AssemblySettings) (l : Layout) (lines : List Line) : Progress :=
  (lines.zip l.places).foldl (step settings l) { collector := l.collector }

end Encoding

/-! ## Both passes -/

inductive GenerationError where
  | failed (errors : List Diagnostic)
  /-- The message of some problem cannot be written, nor that of a failure. -/
  | unwritable
  deriving Repr

/-- What the diagnostics of both passes make of an assembly. The message about the limit shows it; a positive
one that is reached is no greater than the number of diagnostics, and never too long. -/
def Collector.verdict (c : Collector) (assembly : Assembly) : Except GenerationError Assembly :=
  if c.isBroken then .error .unwritable
  else if c.isAtLimit then
    if Text.isWritable (min c.limit 0) then .error (.failed (c.errors ++ [c.stop])) else .error .unwritable
  else if c.hasErrors then .error (.failed c.errors)
  else .ok assembly

/-- What assembling a file leaves: the labels it bound, the problems it gathered, and the assembly or the
failure. -/
structure Generation where
  labels : List (String × Int) := []
  collector : Collector
  outcome : Except GenerationError Assembly

/-- Assembles the lines of a file. -/
def generate (settings : AssemblySettings) (lines : List Line) (file : String) : Generation :=
  let layout := Layout.ofLines settings lines
  let progress := Encoding.ofLines settings layout lines
  { labels := layout.labelTable
    collector := progress.collector
    outcome := progress.collector.verdict {
      origin := settings.origin
      words := progress.words.mergeSort fun a b => decide (a.location ≤ b.location)
      literals := layout.literals.mapIdx fun i c => (Layout.slot settings i, c.stored)
      labels := layout.labelTable
      listing := progress.listing
      file } }

end WordMachine
