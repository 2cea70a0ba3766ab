import WordMachine.Settings
import WordMachine.Files.Tree
import WordMachine.Numeric.Reading
/-!
The arguments of the command. Options and files stand in any order; an option of one letter may be
joined with others, a long option takes its value after an equals sign or from the next argument, and
after two dashes every argument is a file. Of an option that is given twice the last value counts.
-/
namespace WordMachine.Command

open Files

/-- An option without a value. -/
inductive Switch where
  | list | run | trace | verbose | version | help
  deriving DecidableEq, Repr

inductive Parameter where
  | language | listPath | tracePath | maxSteps
  deriving DecidableEq, Repr

inductive LongOption where
  | switch (s : Switch)
  | parameter (p : Parameter)
  deriving DecidableEq, Repr

def longOptions : List (String × LongOption) :=
  [("--language", .parameter .language), ("--lang", .parameter .language), ("--list", .switch .list),
   ("--list-path", .parameter .listPath), ("--run", .switch .run), ("--trace", .switch .trace),
   ("--trace-path", .parameter .tracePath), ("--max-steps", .parameter .maxSteps),
   ("--verbose", .switch .verbose), ("--version", .switch .version), ("--help", .switch .help)]

def shortOptions : List (Char × Switch) :=
  [('l', .list), ('r', .run), ('t', .trace), ('v', .verbose)]

/-- Why the command cannot be carried out as it was given. -/
inductive UsageError where
  | unknownOption (name : String)
  | missingValue (name : String)
  | strayValue (name : String)
  | noFiles
  | fileNotFound (path : String)
  | fileIsDirectory (path : String)
  | directoryIsFile (option path : String)
  | unknownLanguage (value : String)
  | limitNotInteger (value : String)
  | limitTooLow (value : Int)
  deriving DecidableEq, Repr

def UsageError.message : UsageError → String
  | .unknownOption name => s!"No such option: {name}"
  | .missingValue name => s!"Option '{name}' requires an argument."
  | .strayValue name => s!"Option '{name}' does not take a value."
  | .noFiles => "Missing argument 'FILES...'."
  | .fileNotFound path => s!"Invalid value for 'FILES...': File '{path}' does not exist."
  | .fileIsDirectory path => s!"Invalid value for 'FILES...': File '{path}' is a directory."
  | .directoryIsFile option path => s!"Invalid value for '{option}': Directory '{path}' is a file."
  | .unknownLanguage value =>
    let names := ", ".intercalate (Dialect.all.map fun d => s!"'{d.name}'")
    s!"Invalid value for '--language' / '--lang': {Text.quoted value} is not one of {names}."
  | .limitNotInteger value =>
    s!"Invalid value for '--max-steps': {Text.quoted value} is not a valid integer range."
  | .limitTooLow value => s!"Invalid value for '--max-steps': {value} is not in the range x>=1."

/-- Whether the usage is shown with the error. It is not when an option lacks its value or has one too
many, for then the arguments are not even read. -/
def UsageError.showsUsage : UsageError → Bool
  | .missingValue _ | .strayValue _ => false
  | _ => true

inductive Item where
  | switch (s : Switch)
  | parameter (p : Parameter) (value : String)
  | file (path : String)
  deriving DecidableEq, Repr

/-- An argument: items, or a parameter whose value is the next argument. -/
inductive Reading where
  | items (items : List Item)
  | awaiting (p : Parameter) (name : String)

/-- An option name, and the value after the first equals sign. -/
def splitValue (argument : String) : String × Option String :=
  let cs := argument.toList
  let name := cs.takeWhile (· != '=')
  match cs.drop name.length with
  | [] => (argument, none)
  | _ :: value => (String.ofList name, some (String.ofList value))

def readShort (letters : List Char) : Except UsageError (List Item) :=
  letters.mapM fun c =>
    match shortOptions.lookup c with
    | some s => .ok (.switch s)
    | none => .error (.unknownOption (String.ofList ['-', c]))

def readArgument (argument : String) : Except UsageError Reading :=
  match argument.toList with
  | '-' :: c :: rest =>
    let (name, value) := splitValue argument
    match longOptions.lookup name, value with
    | some (.switch s), none => .ok (.items [.switch s])
    | some (.switch _), some _ => .error (.strayValue name)
    | some (.parameter p), some value => .ok (.items [.parameter p value])
    | some (.parameter p), none => .ok (.awaiting p name)
    | none, _ => if c = '-' then .error (.unknownOption name) else .items <$> readShort (c :: rest)
  | _ => .ok (.items [.file argument])

def readArguments : List String → Except UsageError (List Item)
  | [] => .ok []
  | argument :: rest =>
    if argument = "--" then .ok (rest.map .file)
    else
      match readArgument argument, rest with
      | .error e, _ => .error e
      | .ok (.items items), rest => (items ++ ·) <$> readArguments rest
      | .ok (.awaiting _ name), [] => .error (.missingValue name)
      | .ok (.awaiting p _), value :: rest => (.parameter p value :: ·) <$> readArguments rest

structure Choices where
  language : Option String
  list : Bool
  listPath : Option Path
  run : Bool
  trace : Bool
  tracePath : Option Path
  maxSteps : Option Int
  files : List Path

inductive Request where
  | version
  | help
  | build (choices : Choices)

namespace Request

def value? (items : List Item) (p : Parameter) : Option String :=
  (items.filterMap fun item =>
    match item with
    | .parameter q value => if q = p then some value else none
    | _ => none).getLast?

def language (items : List Item) : Except UsageError (Option String) :=
  match value? items .language with
  | none => .ok none
  | some value =>
    match Dialect.ofName? value with
    | some d => .ok (some d.name)
    | none => .error (.unknownLanguage value)

def limit (items : List Item) : Except UsageError (Option Int) :=
  match value? items .maxSteps with
  | none => .ok none
  | some value =>
    match Numeric.Number.read? value with
    | some (.integer n) => if 1 ≤ n then .ok (some n) else .error (.limitTooLow n)
    | _ => .error (.limitNotInteger value)

/-- A directory for results; it need not exist, but must not be a file. -/
def directory (tree : FileTree) (items : List Item) (p : Parameter) (option : String) :
    Except UsageError (Option Path) :=
  match value? items p with
  | none => .ok none
  | some value =>
    match tree.named value with
    | .ok (.file _) => .error (.directoryIsFile option value)
    | _ => .ok (some (Path.ofText value))

def source (tree : FileTree) (path : String) : Except UsageError Path :=
  match tree.named path with
  | .ok (.file _) => .ok (Path.ofText path)
  | .ok .directory => .error (.fileIsDirectory path)
  | .error _ => .error (.fileNotFound path)

def files (items : List Item) : List String :=
  items.filterMap fun item =>
    match item with
    | .file path => some path
    | _ => none

def choices (tree : FileTree) (items : List Item) : Except UsageError Choices := do
  if (files items).isEmpty then throw .noFiles
  return {
    files := ← (files items).mapM (source tree)
    language := ← language items
    list := items.contains (.switch .list)
    listPath := ← directory tree items .listPath "--list-path"
    run := items.contains (.switch .run)
    trace := items.contains (.switch .trace)
    tracePath := ← directory tree items .tracePath "--trace-path"
    maxSteps := ← limit items }

/-- Reads the arguments. The version and the help text are shown whatever else is asked for. -/
def read (tree : FileTree) (arguments : List String) : Except UsageError Request := do
  let items ← readArguments arguments
  let isFirst (item : Item) : Bool := item == .switch .version || item == .switch .help
  match items.find? isFirst with
  | some (.switch .version) => return .version
  | some _ => return .help
  | none => .build <$> choices tree items

end Request

/-- Settings of the environment, replaced where the arguments say otherwise. -/
def Choices.over (c : Choices) (s : Settings) : Settings :=
  Settings.normalized {
    s with
    language := c.language.getD s.language
    list := s.list || c.list
    listPath := c.listPath.orElse fun _ => s.listPath
    run := s.run || c.run
    trace := s.trace || c.trace
    tracePath := c.tracePath.orElse fun _ => s.tracePath
    maxSteps := c.maxSteps.orElse fun _ => s.maxSteps }

end WordMachine.Command
