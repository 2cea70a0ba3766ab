import WordMachine.Command.Session
/-!
The command as a program. It looks at the files that the arguments and the environment mention, carries
the command out, and then prints and writes what the report says.
-/
namespace WordMachine.Command

open Files Numeric

def variableNames : List String :=
  ["BBCX_LANGUAGE", "BBCX_LIST_PATH", "BBCX_TRACE_PATH", "BBCX_MAX_STEPS"]

def readEnvironment : IO (List (String × String)) := do
  let mut found := []
  for name in variableNames do
    if let some value ← IO.getEnv name then found := found ++ [(name, value)]
  return found

def survey (tree : FileTree) (path : Path) : IO FileTree := do
  try
    let content ← IO.FS.readBinFile path.text
    return tree.withFile path content
  catch
    | .inappropriateType _ 21 _ => return (tree.makeDirectories path).toOption.getD tree
    | _ => return tree

def surveyAll (tree : FileTree) (path : Path) : IO FileTree :=
  (List.range path.names.length).foldlM
    (fun tree n => survey tree { path with names := path.names.take (n + 1) }) tree

/-- The paths that a text may mention: itself or an option's value, and results beside it. -/
def mentioned (text : String) : List Path :=
  let path := Path.ofText ((splitValue text).2.getD text)
  let settings : Settings := {}
  [path, settings.listingFile path, settings.traceFile path]

/-- The whole standard input. -/
partial def readInput (stream : IO.FS.Stream) (before : ByteArray) : IO String := do
  let more ← stream.read 65536
  if more.isEmpty then return (String.fromUTF8? before).getD ""
  else readInput stream (before ++ more)

/-- Random numbers from zero up to one. -/
def drawNumbers (count : Nat) : IO (List Binary64) :=
  (List.range count).mapM fun _ => do
    return .ofScaled false (← IO.rand 0 0x1FFFFFFFFFFFFF) (-53)

def writeChanges (changes : List (Route × Entry)) : IO Unit := do
  for (place, entry) in changes do
    match entry with
    | .directory => IO.FS.createDirAll (FileTree.routeText place)
    | .file content => IO.FS.writeBinFile (FileTree.routeText place) content

/-- Carries the command out, with more and more patience. -/
partial def carryOut (patience : Nat) (s : Surroundings) (arguments : List String) : IO Report :=
  match run? patience s arguments with
  | some report => return report
  | none => carryOut (patience * 4) s arguments

end WordMachine.Command

open WordMachine.Command WordMachine.Files in
def main (arguments : List String) : IO UInt32 := do
  let environment ← readEnvironment
  let mut tree : FileTree := {}
  for text in arguments ++ environment.map (·.2) do
    for path in mentioned text do
      tree ← surveyAll tree path
  let mut surroundings : Surroundings := { tree, environment, draws := ← drawNumbers 1024 }
  if runsPrograms surroundings arguments then
    surroundings := { surroundings with input := ← readInput (← IO.getStdin) .empty }
  let report ← carryOut 1000000 surroundings arguments
  IO.print report.output
  IO.eprint report.errors
  try
    writeChanges (report.tree.changes tree)
    return UInt32.ofNat report.exitCode.number
  catch e =>
    IO.eprintln s!"Error: {e}"
    return UInt32.ofNat ExitCode.invalidArguments.number
