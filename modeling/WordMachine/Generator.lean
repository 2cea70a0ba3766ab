import WordMachine.Layout
/-!
A generator that assembles one file after another. It works on tables that it keeps from file to file: they are
emptied before each file, and a file that is stopped at the limit leaves them half filled. What it returns are
copies, so that nothing that was returned depends on the tables afterwards.
-/
namespace WordMachine

open Source

/-- The table with a value for a key: in the place of an older value of the key, or at its end. -/
def putEntry {κ α : Type} [BEq κ] (key : κ) (value : α) (table : List (κ × α)) : List (κ × α) :=
  if table.any (·.1 == key) then table.map fun e => if e.1 == key then (key, value) else e
  else table ++ [(key, value)]

/-- A generator and its tables. -/
structure Generator where
  settings : AssemblySettings
  collector : Collector
  /-- The locations of the labels. -/
  labels : List (String × Int) := []
  labelSites : List (String × Site) := []
  /-- The locations of the lines with a word, by the index of the line. -/
  assigned : List (Nat × Int) := []
  locationSites : List (Int × Site) := []
  /-- The slots of the constants in the literal table. -/
  slots : List (Constant × Int) := []
  literalWords : List (Int × Word) := []
  /-- The slot of the next literal. -/
  nextLiteral : Int

namespace Generator

def new (settings : AssemblySettings) : Generator where
  settings
  collector := { limit := settings.maxErrors }
  nextLiteral := settings.memorySize - 1

def reset (g : Generator) : Generator :=
  { g with
    collector := { limit := g.settings.maxErrors }
    labels := []
    labelSites := []
    assigned := []
    locationSites := []
    slots := []
    literalWords := []
    nextLiteral := g.settings.memorySize - 1 }

def hasErrors (g : Generator) : Bool :=
  g.collector.hasErrors

def errorReport (g : Generator) : String :=
  g.collector.report

def report (g : Generator) (line : Line) (cause : Cause) : Generator :=
  { g with collector := g.collector.add (.problem cause (some (line.site 1)) (some line.text)) }

/-! ## The first pass -/

def defineLabel (g : Generator) (line : Line) (location : Int) : Except Cause Generator :=
  match line.label with
  | none => .ok g
  | some name =>
    if (g.labels.lookup name).isSome then .error (.duplicateLabel name (g.labelSites.lookup name))
    else .ok { g with
      labels := putEntry name location g.labels
      labelSites := putEntry name (line.site 1) g.labelSites }

def assign (g : Generator) (index : Nat) (line : Line) (location : Int) : Except Cause Generator := do
  let location ← (checkField "location" location 0 (g.settings.memorySize - 1)).mapError FieldError.cause
  match g.locationSites.lookup location with
  | some first => throw (.duplicateLocation location (some first))
  | none => return { g with
      assigned := putEntry index location g.assigned
      locationSites := putEntry location (line.site 1) g.locationSites }

def slotOf? (g : Generator) (c : Constant) : Option Int :=
  (g.slots.find? (c.same ·.1)).map (·.2)

def allocate (g : Generator) (c : Constant) : Generator :=
  if (g.slotOf? c).isSome then g
  else { g with
    slots := g.slots ++ [(c, g.nextLiteral)]
    literalWords := g.literalWords ++ [(g.nextLiteral, c.stored)]
    nextLiteral := g.nextLiteral - 1 }

def allocateFor (g : Generator) : Content → Generator
  | .statement ⟨_, _, some (.constant c _), _⟩ => g.allocate c
  | _ => g

def placeLine (g : Generator) (index : Nat) (counter : Int) (line : Line) : Generator × Int :=
  match g.defineLabel line counter with
  | .error cause => (g.report line cause, counter)
  | .ok g =>
    match line.content with
    | none => (g, counter)
    | some content =>
      match g.assign index line counter with
      | .error cause => (g.report line cause, counter)
      | .ok g => (g.allocateFor content, counter + 1)

/-- Takes up the lines in order, and stops when the limit is reached. -/
def placeLines (g : Generator) (index : Nat) (counter : Int) : List Line → Generator
  | [] => g
  | line :: lines =>
    let (g, counter) := g.placeLine index (line.location.elim counter Int.ofNat) line
    if g.collector.isFull then g else g.placeLines (index + 1) counter lines

/-- Reports a line whose location the literal table needs, until the limit is reached. -/
def reportOverlap (lines : List Line) (g : Generator) (entry : Nat × Int) : Generator :=
  if g.collector.isFull ∨ entry.2 ≤ g.nextLiteral then g
  else
    match lines[entry.1]? with
    | some line => g.report line (.literalOverlap entry.2 (g.nextLiteral + 1))
    | none => g

def checkOverlap (g : Generator) (lines : List Line) : Generator :=
  g.assigned.foldl (reportOverlap lines) g

def firstPass (g : Generator) (lines : List Line) : Generator :=
  let g := g.placeLines 0 g.settings.origin lines
  if g.collector.isFull then g else g.checkOverlap lines

/-! ## The second pass -/

def resolve (g : Generator) : Option Operand → Except Cause Int
  | none => .ok 0
  | some (.constant c _) => .ok ((g.slotOf? c).getD 0)
  | some (.address a) =>
    match a.target with
    | .location n => .ok n
    | .label name =>
      match g.labels.lookup name with
      | some location => .ok location
      | none => .error (.undefinedLabel name (Text.closeMatches name (g.labels.map (·.1))))

def statement (g : Generator) (s : Statement) : Except Cause Word := do
  let address ← g.resolve s.operand
  let address ← (checkField "address" address 0 (g.settings.memorySize - 1)).mapError FieldError.cause
  let instruction ← (Encoding.draft s address).check.mapError FieldError.cause
  return instruction.encode

def encode (g : Generator) (line : Line) : Content → Except Diagnostic Word
  | .constant c => .ok c.stored
  | .statement s =>
    (g.statement s).mapError fun cause =>
      .problem cause (some (line.site (Encoding.column s.operand))) (some line.text)

def wordAt? (g : Generator) (index : Nat) (line : Line) : Option (Int × Except Diagnostic Word) :=
  match g.assigned.lookup index, line.content with
  | some location, some content => some (location, g.encode line content)
  | _, _ => none

def encodeLine (g : Generator) (index : Nat) (words : List AssembledWord) (listing : List ListingLine)
    (line : Line) : Generator × List AssembledWord × List ListingLine :=
  let blank : ListingLine := { number := line.number, text := line.text, label := line.label }
  match g.wordAt? index line with
  | none => (g, words, listing ++ [blank])
  | some (_, .error d) => ({ g with collector := g.collector.add d }, words, listing ++ [blank])
  | some (location, .ok word) =>
    (g, words ++ [⟨location, word, line.number⟩],
      listing ++ [{ blank with locations := [location], words := [word] }])

/-- The second pass over the lines of a file; it stops when the limit is reached. -/
def secondPass (g : Generator) (index : Nat) (words : List AssembledWord) (listing : List ListingLine) :
    List Line → Generator × List AssembledWord × List ListingLine
  | [] => (g, words, listing)
  | line :: lines =>
    let (g, words, listing) := g.encodeLine index words listing line
    if g.collector.isFull then (g, words, listing) else g.secondPass (index + 1) words listing lines

/-! ## Files -/

/-- Assembles the lines of a file: what is left of the generator, and the assembly or the failure. -/
def generate (g : Generator) (lines : List Line) (file : String) :
    Generator × Except GenerationError Assembly :=
  let g := g.reset.firstPass lines
  let (g, words, listing) := if g.collector.isFull then (g, [], []) else g.secondPass 0 [] [] lines
  (g, g.collector.verdict {
    origin := g.settings.origin
    words := words.mergeSort fun a b => decide (a.location ≤ b.location)
    literals := g.literalWords
    labels := g.labels
    listing
    file })

/-- What a file is assembled from: its lines and its name. -/
structure Call where
  lines : List Line
  file : String

/-- Assembles files one after the other: what is left of the generator, and what came of each file. -/
def session (g : Generator) : List Call → Generator × List (Except GenerationError Assembly)
  | [] => (g, [])
  | c :: calls =>
    let (g, outcome) := g.generate c.lines c.file
    let (g, outcomes) := g.session calls
    (g, outcome :: outcomes)

end Generator

end WordMachine
