import WordMachine.Proofs.Assembly.Occupancy
import WordMachine.Proofs.Command.Work
import WordMachine.Proofs.Machine.Endings

/-!
# What becomes of one file

A file is done (`FileDone`) when it was found undecodable, refused, or built, listed if a listing is wanted,
and run and traced if a run is wanted, to its halt, a fault or the step limit. It stops the command
(`FileStops`) when one of its lines has no tokens, when a message or a result cannot be written, when its run
is broken off, when its trace cannot be shown, or when there was nothing to run. There is no third case but a program
that does not end (`FileEndless`).
-/
namespace WordMachine.Command

open Files Source

/-! ## Progress -/

namespace Progress

def printing (p : Progress) (text : String) : Progress :=
  { p with output := p.output ++ Text.withoutControls text }

def complaining (p : Progress) (line : String) : Progress :=
  { p with errors := p.errors ++ Text.withoutControls line ++ "\n" }

def warned (p : Progress) (warnings : List Warning) : Progress :=
  { p with errors := warnings.foldl (fun e w => e ++ s!"WARNING: {w.message}\n") p.errors }

/-- The report of a refused source: its diagnostics, and how many there are. -/
def reporting (p : Progress) (path : Path) (failure : AssemblyFailure) : Progress :=
  ((failure.errors.map (·.message)).foldl complaining p).complaining
    s!"{path.text}: {failure.errors.length} error(s)"

theorem tree_reporting (p : Progress) (path : Path) (failure : AssemblyFailure) :
    (p.reporting path failure).tree = p.tree := by
  have told (messages : List String) : (messages.foldl complaining p).tree = p.tree := by
    induction messages using List.reverseRecOn with
    | nil => rfl
    | append_singleton messages message ih => simpa [complaining] using ih
  exact told _

def afterRun (p : Progress) (m : Machine) : Progress :=
  let input := match m.supply.input with
    | .stream rest => rest.text
    | _ => []
  ({ p with input, draws := m.supply.draws }).printing m.output

/-- The end of an output line that was not ended. -/
def endsLine (p : Progress) (m : Machine) : Progress :=
  match m.output.toList.getLast? with
  | none | some '\n' => p
  | some _ => p.printing "\n"

theorem tree_endsLine (p : Progress) (m : Machine) : (p.endsLine m).tree = p.tree := by
  unfold endsLine
  split <;> rfl

end Progress

/-! ## Results in files -/

/-- A text is written to a file, in a directory that is made if it is not there. -/
inductive Delivered (p : Progress) (file : Path) (text : String) : Progress → Prop where
  | written {around tree : FileTree} (room : p.tree.makeDirectories file.parent = .ok around)
      (wrote : around.write file text.toUTF8 = .ok tree) : Delivered p file text { p with tree }

/-- A file cannot be written, or its directory cannot be made. -/
inductive Undeliverable (tree : FileTree) (file : Path) : FileError → Prop where
  | room {e : FileError} (failed : tree.makeDirectories file.parent = .error e) : Undeliverable tree file e
  | write {around : FileTree} {text : String} {e : FileError}
      (room : tree.makeDirectories file.parent = .ok around)
      (failed : around.write file text.toUTF8 = .error e) : Undeliverable tree file e

section

variable {α : Type} {p : Progress} {good : Unit → Progress → Prop} {stops : Abort → Prop} {endless : Prop}

theorem comes_makeRoom_bind {file : Path} {β : Type} {next : Unit → Work β} {fine : β → Progress → Prop}
    (ok : ∀ around, p.tree.makeDirectories file.parent = .ok around →
      Comes (next ()) { p with tree := around } fine stops endless)
    (error : ∀ e, Undeliverable p.tree file e → stops (.file e)) :
    Comes (makeRoom file >>= next) p fine stops endless := by
  unfold makeRoom
  rw [bind_assoc]
  refine comes_get_bind ?_
  rw [bind_assoc]
  exact comes_orStop_bind (fun around room => comes_modify_bind (ok around room))
    fun e failed => error e (.room failed)

theorem comes_writeResult {file : Path} {text : String}
    (ok : ∀ tree, p.tree.write file text.toUTF8 = .ok tree → good () { p with tree })
    (error : ∀ e, p.tree.write file text.toUTF8 = .error e → stops (.file e)) :
    Comes (writeResult file text) p good stops endless := by
  unfold writeResult
  refine comes_get_bind ?_
  exact comes_orStop_bind (fun tree wrote => comes_modify (ok tree wrote)) error

end

/-! ## Traces -/

/-- The trace of a run is written if one was recorded. -/
inductive Traced (settings : Settings) (path : Path) (m : Machine) (p : Progress) : Progress → Prop where
  | unrecorded (none : m.trace = none) : Traced settings path m p p
  | written {records : Array TraceRecord} {text : String} {after : Progress} (kept : m.trace = some records)
      (shown : Trace.render records.toList = .ok text)
      (delivered : Delivered p (settings.traceFile path) text after) : Traced settings path m p after

/-- The trace of a run cannot be shown, or cannot be written. -/
inductive TraceStops (settings : Settings) (path : Path) (m : Machine) (tree : FileTree) : Abort → Prop where
  | unshown {records : Array TraceRecord} {e : WordError} (kept : m.trace = some records)
      (refused : Trace.render records.toList = .error e) : TraceStops settings path m tree (.untraceable e)
  | undelivered {e : FileError} (recorded : m.trace.isSome = true)
      (failed : Undeliverable tree (settings.traceFile path) e) : TraceStops settings path m tree (.file e)

theorem comes_writeTrace (settings : Settings) (path : Path) (m : Machine) (p : Progress) (endless : Prop) :
    Comes (writeTrace path settings m) p (fun _ after => Traced settings path m p after)
      (TraceStops settings path m p.tree) endless := by
  unfold writeTrace
  cases kept : m.trace with
  | none => exact comes_pure (.unrecorded kept)
  | some records =>
    have recorded : m.trace.isSome = true := by rw [kept]; rfl
    refine comes_makeRoom_bind (fun around room => ?_) fun e failed => .undelivered recorded failed
    refine comes_orStop_bind (fun text shown => ?_) fun e refused => .unshown kept refused
    exact comes_writeResult (fun tree wrote => .written kept shown (.written room wrote))
      fun e failed => .undelivered recorded (.write room failed)

/-! ## Runs -/

/-- The run of a program: the machine it starts with, and what it comes to; nothing if the patience is
exhausted. -/
structure Ran (patience : Nat) (settings : Settings) (assembly : Assembly) (p : Progress) (m : Machine)
    (result : Option (Machine × Option Trouble)) : Prop where
  loaded : Machine.load assembly fullMemorySize ⟨.stream { text := p.input }, p.draws⟩ settings.trace = .ok m
  ended : m.runPatiently? patience (settings.maxSteps.map Int.toNat) = result

/-- What is reported of a run that was cancelled: where it stood, and the limit it came to. -/
def cancellation (settings : Settings) (path : Path) (m : Machine) : String :=
  let outcome := s!"cancelled at {Text.locationText m.counter} after {m.steps} steps"
  let limit := (settings.maxSteps.map toString).getD "None"
  s!"Error: {path.text}: {outcome} (step limit {limit})"

section

variable (patience : Nat) (settings : Settings) (path : Path) (assembly : Assembly) (p : Progress)

/-- A run that halted, faulted or was cancelled: whether it halted, and what is reported. -/
inductive RunDone : Bool → Progress → Prop where
  | halted {m after : Machine} {location : Int} {q : Progress}
      (ran : Ran patience settings assembly p m (some (after, none)))
      (status : after.status = .halted (some location))
      (traced : Traced settings path after (p.afterRun after) q) : RunDone true (q.endsLine after)
  | cancelled {m after : Machine} {q : Progress}
      (ran : Ran patience settings assembly p m (some (after, none)))
      (status : after.status = .cancelled)
      (traced : Traced settings path after (p.afterRun after) q) :
    RunDone false ((q.endsLine after).complaining (cancellation settings path after))
  | faulted {m after : Machine} {f : Fault} {q : Progress}
      (ran : Ran patience settings assembly p m (some (after, some (.fault f))))
      (status : after.status = .faulted f)
      (traced : Traced settings path after
        (((p.afterRun after).endsLine after).complaining s!"{path.text}: run error: {f.message}") q) :
    RunDone false q

/-- A run that stops the command. -/
inductive RunStops : Abort → Prop where
  /-- The input held a word that is no number. -/
  | unreadable {m after : Machine} {word : String}
      (ran : Ran patience settings assembly p m (some (after, some (.unreadable word)))) :
    RunStops (.run (.unreadable word))
  /-- The reason of a fault is too long to be written. -/
  | unwritable {m after : Machine}
      (ran : Ran patience settings assembly p m (some (after, some .unwritable))) : RunStops (.run .unwritable)
  /-- The program has no instructions, and halted nowhere. -/
  | nowhere {m : Machine} (ran : Ran patience settings assembly p m (some (m, none)))
      (empty : m.status = .halted none) : RunStops .noOutcome
  | trace {m after : Machine} {trouble : Option Trouble} {a : Abort}
      (ran : Ran patience settings assembly p m (some (after, trouble)))
      (stops : TraceStops settings path after p.tree a) : RunStops a

def RunEndless : Prop :=
  ∃ m, Ran patience settings assembly p m none

theorem comes_endLine_bind {β : Type} {next : Unit → Work β} {fine : β → Progress → Prop}
    {stops : Abort → Prop} {endless : Prop} {q : Progress} {m : Machine}
    (h : Comes (next ()) (q.endsLine m) fine stops endless) : Comes (endLine m >>= next) q fine stops endless := by
  unfold Progress.endsLine at h
  unfold endLine
  cases last : m.output.toList.getLast? with
  | none =>
    rw [last] at h
    exact h
  | some c =>
    rw [last] at h
    by_cases ended : c = '\n'
    · subst ended
      exact h
    · simp only at h ⊢
      exact comes_modify_bind h

/-- A program halts, faults or is cancelled, or it stops the command, or it does not end. -/
theorem comes_runProgram {asm : Assembler} {source file : String}
    (assembled : (asm.assemble source file).value.2 = .ok assembly)
    (full : asm.settings.memorySize ≤ fullMemorySize) :
    Comes (runProgram patience path settings assembly) p (RunDone patience settings path assembly p)
      (RunStops patience settings path assembly p) (RunEndless patience settings assembly p) := by
  unfold runProgram
  refine comes_get_bind ?_
  refine comes_orStop_bind (fun m loaded => ?_) fun e failed => ?_
  · cases result : m.runPatiently? patience (settings.maxSteps.map Int.toNat) with
    | none =>
      dsimp only
      rw [result]
      exact ⟨m, loaded, result⟩
    | some both =>
      obtain ⟨after, trouble⟩ := both
      have ran : Ran patience settings assembly p m (some (after, trouble)) := ⟨loaded, result⟩
      dsimp only
      rw [result]
      refine comes_modify_bind (comes_modify_bind ?_)
      show Comes _ (p.afterRun after) _ _ _
      have trace (q : Progress) (same : q.tree = p.tree) :=
        (comes_writeTrace settings path after q (RunEndless patience settings assembly p)).weaken
          (fun _ _ traced => traced) (fun a stops => RunStops.trace ran (same ▸ stops)) id
      cases Machine.runEnd_of_runPatiently loaded result with
      | nowhere empty =>
        refine (trace _ (by rfl)).bind fun _ q traced => comes_endLine_bind ?_
        rw [show m.summary? = none by simp [Machine.summary?, empty]]
        exact comes_throw (.nowhere ran empty)
      | @halted _ location status =>
        refine (trace _ (by rfl)).bind fun _ q traced => comes_endLine_bind ?_
        simp only [Machine.summary?, status, reduceCtorEq, if_false]
        exact comes_pure (.halted ran status traced)
      | cancelled status =>
        refine (trace _ (by rfl)).bind fun _ q traced => comes_endLine_bind ?_
        simp only [Machine.summary?, status, if_true]
        exact comes_modify_bind (comes_pure (.cancelled ran status traced))
      | faulted status =>
        refine comes_endLine_bind (comes_modify_bind ?_)
        refine Comes.bind (trace _ ?_) fun _ q traced => comes_pure (.faulted ran status traced)
        exact Progress.tree_endsLine _ _
      | brokenOff outside =>
        rcases outside with ⟨word, rfl⟩ | rfl
        · exact (trace _ (by rfl)).bind fun _ q traced => comes_throw (.unreadable ran)
        · exact (trace _ (by rfl)).bind fun _ q traced => comes_throw (.unwritable ran)
  · obtain ⟨m, loaded⟩ := exists_load_of_assemble assembled full (by decide)
      ⟨.stream { text := p.input }, p.draws⟩ settings.trace
    rw [loaded] at failed
    cases failed

end

/-! ## Files -/

/-- The listing of a product is written if one is wanted. -/
inductive Listed (settings : Settings) (path : Path) (product : Product) (p : Progress) : Progress → Prop where
  | unwanted (off : settings.list = false) : Listed settings path product p p
  | written {after : Progress} (on : settings.list = true)
      (delivered : Delivered p (settings.listingFile path) (product.listingText path.text) after) :
    Listed settings path product p after

section

variable (patience : Nat) (settings : Settings) (dialect : Dialect) (path : Path) (p : Progress)

def productOf (source : String) : Warned Product :=
  dialect.build settings.assembly source path.text

/-- A program that was built, and listed if that is wanted. -/
structure Built (program : Program) (q : Progress) : Prop where
  made : ∃ source, readSource p.tree path = .ok source ∧
    (productOf settings dialect path source).value.outcome = .ok program ∧
    Listed settings path (productOf settings dialect path source).value
      (p.warned (productOf settings dialect path source).warnings) q

/-- A file that is done with: whether all that was wanted succeeded, and what it changed. -/
inductive FileDone : Bool → Progress → Prop where
  | undecodable {reason : String} (unread : readSource p.tree path = .error reason) :
    FileDone false (p.complaining s!"Error: {path.text}: cannot read source: {reason}")
  | refused {source : String} {failure : AssemblyFailure} {q : Progress}
      (read : readSource p.tree path = .ok source)
      (failed : (productOf settings dialect path source).value.outcome = .error (.failed failure))
      (listed : Listed settings path (productOf settings dialect path source).value
        ((p.warned (productOf settings dialect path source).warnings).reporting path failure) q) :
    FileDone false q
  | built {program : Program} {q : Progress} (built : Built settings dialect path p program q)
      (unwanted : settings.run = false) : FileDone true q
  | notExecutable {program : Program} {e : DialectError} {q : Progress}
      (built : Built settings dialect path p program q) (wanted : settings.run = true)
      (other : program.executable = .error e) :
    FileDone false (q.complaining s!"Error: {path.text}: {e.message}")
  | ran {program : Program} {assembly : Assembly} {ok : Bool} {q after : Progress}
      (built : Built settings dialect path p program q) (wanted : settings.run = true)
      (executable : program.executable = .ok assembly)
      (run : RunDone patience settings path assembly q ok after) : FileDone ok after

/-- A file that stops the command. -/
inductive FileStops : Abort → Prop where
  /-- One of its lines has no tokens. -/
  | unreadable {source : String} {e : LexError} (read : readSource p.tree path = .ok source)
      (stuck : (productOf settings dialect path source).value.outcome = .error (.unreadable e)) :
    FileStops (.unreadable e)
  /-- It has a problem whose message cannot be written. -/
  | unwritable {source : String} (read : readSource p.tree path = .ok source)
      (stuck : (productOf settings dialect path source).value.outcome = .error .unwritable) :
    FileStops .unwritable
  | listing {e : FileError} (wanted : settings.list = true)
      (failed : Undeliverable p.tree (settings.listingFile path) e) : FileStops (.file e)
  | run {program : Program} {assembly : Assembly} {q : Progress} {a : Abort}
      (built : Built settings dialect path p program q) (wanted : settings.run = true)
      (executable : program.executable = .ok assembly)
      (stops : RunStops patience settings path assembly q a) : FileStops a

def FileEndless : Prop :=
  ∃ program assembly q, Built settings dialect path p program q ∧ settings.run = true ∧
    program.executable = .ok assembly ∧ RunEndless patience settings assembly q

theorem comes_complainAll_bind {β : Type} {next : PUnit → Work β} {fine : β → Progress → Prop}
    {stops : Abort → Prop} {endless : Prop} {diagnostics : List Diagnostic} {q : Progress}
    (h : Comes (next ⟨⟩) ((diagnostics.map (·.message)).foldl Progress.complaining q) fine stops endless) :
    Comes ((forIn diagnostics PUnit.unit fun d _ => do
      complain d.message
      pure (ForInStep.yield PUnit.unit)) >>= next) q fine stops endless := by
  induction diagnostics generalizing q with
  | nil => exact h
  | cons d rest ih =>
    rw [List.forIn_cons, bind_assoc, bind_assoc]
    refine comes_modify_bind ?_
    rw [pure_bind]
    exact ih h

/-- Every diagnostic of a refused source is reported, unless a line of it has no tokens or a message of it cannot be
written. -/
theorem comes_reportRefusal_bind {β : Type} {next : Unit → Work β} {fine : β → Progress → Prop}
    {stops : Abort → Prop} {endless : Prop} {refusal : Refusal} {q : Progress}
    (ok : ∀ failure, refusal = .failed failure → Comes (next ()) (q.reporting path failure) fine stops endless)
    (error : ∀ e, refusal = .unreadable e → stops (.unreadable e))
    (unwritable : refusal = .unwritable → stops .unwritable) :
    Comes (reportRefusal path refusal >>= next) q fine stops endless := by
  unfold reportRefusal
  cases refusal with
  | unreadable e => exact comes_throw (error e rfl)
  | unwritable => exact comes_throw (unwritable rfl)
  | failed failure =>
    dsimp only
    rw [bind_assoc]
    refine comes_complainAll_bind (comes_modify_bind ?_)
    exact ok failure rfl

theorem comes_listing {β : Type} {next : Work β} {fine : β → Progress → Prop} {stops : Abort → Prop}
    {endless : Prop} {product : Product} {q : Progress}
    (ok : ∀ after, Listed settings path product q after → Comes next after fine stops endless)
    (error : ∀ e, settings.list = true → Undeliverable q.tree (settings.listingFile path) e → stops (.file e)) :
    Comes (if settings.list then do
        makeRoom (settings.listingFile path)
        writeResult (settings.listingFile path) (product.listingText path.text)
        next
      else next) q fine stops endless := by
  split
  next on =>
    refine comes_makeRoom_bind (fun around room => ?_) fun e failed => error e on failed
    refine (comes_writeResult (fun tree wrote => ?_) fun e failed => error e on (.write room failed)).bind
      fun _ after delivered => ok after (.written on delivered)
    exact .written room wrote
  next off => exact ok q (.unwanted (Bool.not_eq_true _ ▸ off))

/-- A program that can be run was assembled, for full memory. -/
theorem exists_assemble_of_executable {source : String} {program : Program} {assembly : Assembly}
    (made : (productOf settings dialect path source).value.outcome = .ok program)
    (executable : program.executable = .ok assembly) :
    ∃ asm : Assembler, (asm.assemble source path.text).value.2 = .ok assembly ∧
      asm.settings.memorySize = fullMemorySize := by
  cases dialect with
  | symbolic =>
    refine ⟨Assembler.new settings.assembly, ?_, rfl⟩
    have outcome : ((Assembler.new settings.assembly).assemble source path.text).value.2.map Program.symbolic =
        .ok program := made
    obtain ⟨a, assembled, rfl⟩ := map_eq_ok_iff.mp outcome
    cases executable
    exact assembled
  | legacy =>
    have outcome : (Legacy.Checker.assemble {} source path.text).value.2.map Program.legacy = .ok program := made
    obtain ⟨checked, -, rfl⟩ := map_eq_ok_iff.mp outcome
    cases executable

/-- The one file is done, or stops the command, or does not end. -/
theorem comes_processFile : Comes (processFile patience settings dialect path) p
    (FileDone patience settings dialect path p) (FileStops patience settings dialect path p)
    (FileEndless patience settings dialect path p) := by
  unfold processFile
  refine comes_get_bind ?_
  cases read : readSource p.tree path with
  | error reason => exact comes_modify_bind (comes_pure (.undecodable read))
  | ok source =>
    refine comes_modify_bind ?_
    show Comes _ (p.warned (productOf settings dialect path source).warnings) _ _ _
    have listing (e : FileError) (on : settings.list = true)
        (failed : Undeliverable p.tree (settings.listingFile path) e) :
        FileStops patience settings dialect path p (.file e) := .listing on failed
    cases made : (productOf settings dialect path source).value.outcome with
    | error refusal =>
      unfold productOf at made
      simp only [made]
      refine comes_reportRefusal_bind path (fun failure failed => ?_) (fun e stuck => ?_) fun stuck => ?_
      · subst failed
        have reported : ((p.warned (productOf settings dialect path source).warnings).reporting path
            failure).tree = p.tree := Progress.tree_reporting _ _ _
        exact comes_listing settings path (fun after listed => comes_pure (.refused read made listed))
          fun e on failed => listing e on (reported ▸ failed)
      · subst stuck
        exact .unreadable read made
      · subst stuck
        exact .unwritable read made
    | ok program =>
      have built {q : Progress} (listed : Listed settings path (productOf settings dialect path source).value
          (p.warned (productOf settings dialect path source).warnings) q) :
          Built settings dialect path p program q := ⟨source, read, made, listed⟩
      unfold productOf at made
      simp only [made]
      refine comes_listing settings path (fun after listed => ?_) listing
      have product := built listed
      unfold runIfWanted
      split
      next wanted =>
        cases executable : program.executable with
        | error e => exact comes_modify_bind (comes_pure (.notExecutable product wanted executable))
        | ok assembly =>
          obtain ⟨asm, assembled, full⟩ := exists_assemble_of_executable settings dialect path made executable
          exact (comes_runProgram patience settings path assembly after assembled full.le).weaken
            (fun ok q run => .ran product wanted executable run)
            (fun a stops => .run product wanted executable stops)
            fun endless => ⟨program, assembly, after, product, wanted, executable, endless⟩
      next unwanted => exact comes_pure (.built product (Bool.not_eq_true _ ▸ unwanted))

end

end WordMachine.Command
