import WordMachine.Command.Build
/-!
The whole command: from arguments, environment, files and input to an exit code, what is printed, and the
files that are left.
-/
namespace WordMachine.Command

open Files Numeric

/-- What the command finds when it starts. -/
structure Surroundings where
  tree : FileTree
  environment : List (String × String) := []
  input : String := ""
  /-- The random numbers that programs get. -/
  draws : List Binary64 := []

structure Report where
  exitCode : ExitCode
  output : String := ""
  errors : String := ""
  tree : FileTree

def versionText : String := "bbcx, version 1.0.0\n"

def usageText : String := "Usage: bbcx [OPTIONS] FILES...\n"

def helpText : String :=
  usageText ++ "
  Assemble, list and run BBC-X programs.

  FILES are processed strictly in the order given.

  Examples:
      bbcx prog.bbcx                 # Assemble only
      bbcx -l -r prog.bbcx           # List and run
      bbcx -t prog.bbcx              # Run with a trace
      bbcx --language bbc3 -l old    # List a legacy program

Options:
  --language, --lang [bbcx|bbc3]  Source dialect (default: bbcx, or
                                  $BBCX_LANGUAGE)
  -l, --list                      Write a <name>.lst listing for every file,
                                  even files that fail
  --list-path DIRECTORY           Directory for listing files (implies --list)
  -r, --run                       Run each program after assembling it
  -t, --trace                     Write a <name>.out execution trace (implies
                                  --run)
  --trace-path DIRECTORY          Directory for trace files (implies --trace)
  --max-steps INTEGER RANGE       Cancel a run after this many instructions
                                  [x>=1]
  -v, --verbose                   Verbose output
  --version                       Show the version and exit.
  --help                          Show this message and exit.
"

def UsageError.report (e : UsageError) : String :=
  let usage := if e.showsUsage then usageText ++ "Try 'bbcx --help' for help.\n\n" else ""
  usage ++ s!"Error: {e.message}\n"

def reportOf (result : Except Abort Bool) (p : Progress) : Report :=
  match result with
  | .ok true => ⟨.success, p.output, p.errors, p.tree⟩
  | .ok false => ⟨.buildError, p.output, p.errors, p.tree⟩
  | .error a => ⟨a.exitCode, p.output, p.errors ++ Text.withoutControls a.message ++ "\n", p.tree⟩

/-- Carries out the command. There is no report if a program has not ended after `patience` steps. -/
def run? (patience : Nat) (s : Surroundings) (arguments : List String) : Option Report :=
  match Request.read s.tree arguments with
  | .error e => some { exitCode := .invalidArguments, errors := e.report, tree := s.tree }
  | .ok .version => some { exitCode := .success, output := versionText, tree := s.tree }
  | .ok .help => some { exitCode := .success, output := helpText, tree := s.tree }
  | .ok (.build choices) =>
    let progress : Progress :=
      { tree := s.tree, input := Text.unifyLineEnds s.input.toList, draws := { all := s.draws } }
    ((build patience s.environment choices).run.run progress).map fun (result, p) => reportOf result p

def runsPrograms (s : Surroundings) (arguments : List String) : Bool :=
  match Request.read s.tree arguments, (Settings.ofEnvironment s.environment).value with
  | .ok (.build choices), .ok settings => (choices.over settings).run
  | _, _ => false

end WordMachine.Command
