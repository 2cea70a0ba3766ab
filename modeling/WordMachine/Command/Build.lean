import WordMachine.Command.Arguments
import WordMachine.Machine.Run
import WordMachine.Machine.Trace
import WordMachine.Text.Control
import WordMachine.Text.Utf8
/-!
What the command does with each file: assemble it, list it, run it, and write its trace. A file that fails
does not keep the others from being processed; a few failures stop the command.
-/
namespace WordMachine.Command

open Files Numeric Source

inductive ExitCode where
  | success | buildError | invalidArguments | internalError
  deriving DecidableEq, Repr

def ExitCode.number : ExitCode → Nat
  | .success => 0
  | .buildError => 1
  | .invalidArguments => 2
  | .internalError => 3

/-- Why the command stops before every file is processed. -/
inductive Abort where
  | setting (e : Text.NumeralError)
  | dialect (e : DialectError)
  /-- A source with a line that has no tokens. -/
  | unreadable (e : LexError)
  /-- A source with a problem whose message cannot be written. -/
  | unwritable
  | unloadable (e : Machine.LoadError)
  /-- A trace that cannot be shown. -/
  | untraceable (e : WordError)
  /-- A run that something other than a fault broke off. -/
  | run (trouble : Trouble)
  /-- A program that stopped nowhere, whose outcome cannot be told. -/
  | noOutcome
  | file (e : FileError)
  deriving DecidableEq, Repr

namespace Abort

def exitCode : Abort → ExitCode
  | .setting _ | .unreadable _ | .unwritable | .noOutcome | .run .unwritable => .internalError
  | .dialect _ | .untraceable _ => .buildError
  | .unloadable (.tooSmall _) | .unloadable (.outside .unwritable) => .internalError
  | .unloadable (.outside _) => .buildError
  | .run (.unreadable _) | .file (.missing _) => .invalidArguments
  | .run _ => .buildError
  | .file _ => .internalError

def reason : Abort → String
  | .setting e => e.message
  | .dialect e => e.message
  | .unreadable e => e.message
  | .unwritable => Text.unwritableMessage
  | .unloadable e => e.message
  | .untraceable e => e.message
  | .run trouble => trouble.message
  | .noOutcome => "unsupported format string passed to NoneType.__format__"
  | .file e => e.message

def message (a : Abort) : String :=
  match a.exitCode with
  | .internalError => s!"Internal error: {a.reason}"
  | _ => s!"Error: {a.reason}"

end Abort

structure Progress where
  tree : FileTree
  /-- The input text that is left. -/
  input : List Char
  draws : Draws
  output : String := ""
  errors : String := ""

/-- Work that changes the progress, may stop the command, and gives up when its patience is exhausted. -/
abbrev Work := ExceptT Abort (StateT Progress Option)

def say (text : String) : Work Unit :=
  modify fun p => { p with output := p.output ++ Text.withoutControls text }

def complain (line : String) : Work Unit :=
  modify fun p => { p with errors := p.errors ++ Text.withoutControls line ++ "\n" }

def warn (warnings : List Warning) : Work Unit :=
  modify fun p =>
    { p with errors := warnings.foldl (fun e w => e ++ s!"WARNING: {w.message}\n") p.errors }

/-- Goes on with a result, or stops the command. -/
def orStop {ε α : Type} (abort : ε → Abort) (result : Except ε α) : Work α :=
  match result with
  | .ok a => return a
  | .error e => throw (abort e)

def makeRoom (path : Path) : Work Unit := do
  let tree ← orStop .file ((← get).tree.makeDirectories path.parent)
  modify ({ · with tree })

def writeResult (path : Path) (text : String) : Work Unit := do
  let tree ← orStop .file ((← get).tree.write path text.toUTF8)
  modify ({ · with tree })

/-- The source text of a file, or why it cannot be read. -/
def readSource (tree : FileTree) (path : Path) : Except String String :=
  match tree.read path with
  | .error e => .error e.message
  | .ok content =>
    match Text.decodeUtf8 content.toList with
    | .error e => .error e.message
    | .ok cs => .ok (String.ofList (Text.unifyLineEnds cs))

/-- Ends an output line that is not ended. -/
def endLine (m : Machine) : Work Unit :=
  match m.output.toList.getLast? with
  | none | some '\n' => return
  | some _ => say "\n"

def writeTrace (path : Path) (settings : Settings) (m : Machine) : Work Unit :=
  match m.trace with
  | none => return
  | some records => do
    let file := settings.traceFile path
    makeRoom file
    writeResult file (← orStop .untraceable (Trace.render records.toList))

/-- Runs a program; the result says whether it ended by itself. A trace is written whatever happens. -/
def runProgram (patience : Nat) (path : Path) (settings : Settings) (assembly : Assembly) : Work Bool := do
  let supply : Supply := ⟨.stream { text := (← get).input }, (← get).draws⟩
  let machine ← orStop .unloadable (Machine.load assembly fullMemorySize supply settings.trace)
  let limit := settings.maxSteps.map Int.toNat
  let some (machine, trouble) := machine.runPatiently? patience limit | failure
  let input := match machine.supply.input with
    | .stream rest => rest.text
    | _ => []
  modify ({ · with input, draws := machine.supply.draws })
  say machine.output
  match trouble with
  | some (.fault f) => do
    endLine machine
    complain s!"{path.text}: run error: {f.message}"
    writeTrace path settings machine
    return false
  | some trouble => do
    writeTrace path settings machine
    throw (.run trouble)
  | none => do
    writeTrace path settings machine
    endLine machine
    let some outcome := machine.summary? | throw .noOutcome
    if machine.status = .cancelled then
      let steps := (settings.maxSteps.map toString).getD "None"
      complain s!"Error: {path.text}: {outcome} (step limit {steps})"
      return false
    else return true
where
  /-- There is no result within the patience. -/
  failure {α : Type} : Work α := fun _ => none

/-- Reports a source that cannot be assembled. A source with a line that has no tokens, or with a problem
whose message cannot be written, stops the command. -/
def reportRefusal (path : Path) : Refusal → Work Unit
  | .unreadable e => throw (.unreadable e)
  | .unwritable => throw .unwritable
  | .failed failure => do
    for d in failure.errors do complain d.message
    complain s!"{path.text}: {failure.errors.length} error(s)"

def runIfWanted (patience : Nat) (path : Path) (settings : Settings) (program : Program) : Work Bool :=
  if settings.run then
    match program.executable with
    | .ok assembly => runProgram patience path settings assembly
    | .error e => do
      complain s!"Error: {path.text}: {e.message}"
      return false
  else return true

/-- Processes one file; the result says whether all that was wanted succeeded. -/
def processFile (patience : Nat) (settings : Settings) (dialect : Dialect) (path : Path) : Work Bool := do
  match readSource (← get).tree path with
  | .error reason => do
    complain s!"Error: {path.text}: cannot read source: {reason}"
    return false
  | .ok source => do
    let product := dialect.build settings.assembly source path.text
    warn product.warnings
    if let .error refusal := product.value.outcome then reportRefusal path refusal
    if settings.list then
      let file := settings.listingFile path
      makeRoom file
      writeResult file (product.value.listingText path.text)
    match product.value.outcome with
    | .error _ => return false
    | .ok program => runIfWanted patience path settings program

/-- Processes the files in order; the result says whether all of them succeeded. -/
def processFiles (patience : Nat) (settings : Settings) (dialect : Dialect) : List Path → Work Bool
  | [] => return true
  | path :: rest => do
    let ok ← processFile patience settings dialect path
    let others ← processFiles patience settings dialect rest
    return ok && others

def build (patience : Nat) (environment : List (String × String)) (choices : Choices) : Work Bool := do
  let given := Settings.ofEnvironment environment
  warn given.warnings
  let settings := choices.over (← orStop .setting given.value)
  let dialect ← orStop .dialect (Dialect.select (some settings.language))
  processFiles patience settings dialect choices.files

end WordMachine.Command
