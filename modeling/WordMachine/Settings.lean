import WordMachine.Dialect
import WordMachine.Files.Path
import WordMachine.Text.Digit
/-!
Settings of the command. Environment variables give them, and options of the command line replace them.
Some settings imply others: a directory for listings implies listings, a directory for traces implies
traces, and traces imply runs.
-/
namespace WordMachine

open Files

/-- What the command is told to do with each file. -/
structure Settings where
  /-- The name of the dialect. -/
  language : String := Dialect.symbolic.name
  /-- The location of the first word. -/
  origin : Int := 8
  /-- How many errors of a file are gathered at most. -/
  maxErrors : Int := 100
  /-- Whether a listing is written. -/
  list : Bool := false
  /-- Where listings are written, if not beside the sources. -/
  listPath : Option Path := none
  /-- Whether programs are run. -/
  run : Bool := false
  /-- Whether a trace is written. -/
  trace : Bool := false
  /-- Where traces are written, if not beside the sources. -/
  tracePath : Option Path := none
  /-- After how many steps a run is cancelled. -/
  maxSteps : Option Int := none
  deriving DecidableEq, Repr

namespace Settings

def normalized (s : Settings) : Settings :=
  let trace := s.trace || s.tracePath.isSome
  { s with list := s.list || s.listPath.isSome, trace, run := s.run || trace }

def listingFile (s : Settings) (source : Path) : Path :=
  (s.listPath.getD source.parent).child (source.stem ++ ".lst")

def traceFile (s : Settings) (source : Path) : Path :=
  (s.tracePath.getD source.parent).child (source.stem ++ ".out")

/-- The value of an environment variable; an empty one counts as not set. -/
def valueOf? (environment : List (String × String)) (name : String) : Option String :=
  (environment.lookup name).filter (!·.isEmpty)

/-- The dialect's name from its variable; a name of no dialect is ignored. -/
def readLanguage (value : Option String) : Warned String :=
  match value with
  | none => ⟨Dialect.symbolic.name, []⟩
  | some name =>
    match Dialect.ofName? name with
    | some dialect => ⟨dialect.name, []⟩
    | none => ⟨Dialect.symbolic.name, [.ignoredLanguage name]⟩

/-- The step limit from its variable. A text that is not made of digits, or is zero, is ignored; digits
that cannot be read are an error. -/
def readStepLimit (value : Option String) : Warned (Except Text.NumeralError (Option Int)) :=
  match value with
  | none => ⟨.ok none, []⟩
  | some text =>
    if text.toList.all Text.isDigit then
      match Text.readNumeral text.toList with
      | .error e => ⟨.error e, []⟩
      | .ok 0 => ⟨.ok none, [.ignoredStepLimit text]⟩
      | .ok n => ⟨.ok (some n), []⟩
    else ⟨.ok none, [.ignoredStepLimit text]⟩

def ofEnvironment (environment : List (String × String)) :
    Warned (Except Text.NumeralError Settings) :=
  let path? (name : String) : Option Path := (valueOf? environment name).map Path.ofText
  let language := readLanguage (valueOf? environment "BBCX_LANGUAGE")
  let limit := readStepLimit (valueOf? environment "BBCX_MAX_STEPS")
  let settings : Except Text.NumeralError Settings := limit.value.map fun maxSteps =>
    normalized {
      language := language.value
      listPath := path? "BBCX_LIST_PATH"
      tracePath := path? "BBCX_TRACE_PATH"
      maxSteps }
  ⟨settings, language.warnings ++ limit.warnings⟩

def assembly (s : Settings) : AssemblySettings :=
  { origin := s.origin, maxErrors := s.maxErrors }

end Settings

end WordMachine
