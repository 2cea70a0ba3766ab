import WordMachine.Machine.State
import WordMachine.Text.Blank
/-!
Traces as text: a row for each executed instruction, with the registers that it changed. A datum is shown
as it reads and an instruction by its octal digits; a text with codes that stand for no character cannot be
shown.
-/
namespace WordMachine.Trace

/-- A changed register: its name, and what it held before and after. -/
structure Change where
  register : String
  old : String
  new : String
  deriving DecidableEq, Repr

def showWord (w : Word) : Except WordError String :=
  if w.isInstruction then .ok w.octal else (·.shown) <$> w.datum

def accumulatorChange (r : TraceRecord) (n : Fin 8) : Except WordError (Option Change) :=
  let old := r.before.accumulators.get n
  let new := r.after.accumulators.get n
  if old = new then .ok none
  else do
    let old ← showWord old
    let new ← showWord new
    return some ⟨s!"A{n.val}", old, new⟩

def indexChange (r : TraceRecord) (n : Fin 8) : Option Change :=
  let old := r.before.index.get n
  let new := r.after.index.get n
  if old = new then none else some ⟨s!"X{n.val}", toString old, toString new⟩

/-- The registers that an instruction changed: accumulators first, each kind by number. -/
def changes (r : TraceRecord) : Except WordError (List Change) := do
  let accumulators ← (List.finRange 8).mapM (accumulatorChange r)
  return accumulators.filterMap id ++ (List.finRange 8).filterMap (indexChange r)

def row (r : TraceRecord) : Except WordError String := do
  let shown := (← changes r).map fun c => s!"{c.register}: {c.old} -> {c.new}"
  let list := ", ".intercalate shown
  return Text.trimEnd
    s!"{Text.locationText r.location}  {Text.padEnd 6 r.name}  {list}"

def render (records : List TraceRecord) : Except WordError String := do
  let rows ← records.mapM row
  return String.join (rows.map (· ++ "\n"))

end WordMachine.Trace
