import WordMachine.Proofs.Command.AllFiles
import WordMachine.Proofs.Machine.Reader

/-!
# What the programs of a command read

All programs of a command read from one text, each with a reader of its own. A reader takes a whole line and gives
its words one by one, so when a program ends, what is left of the line that it read last is gone with its reader, and
the next program goes on with the line after it. Every word of the input is thus taken by one program, or dropped after
it, or left (`InputAccounted`); within a program none is skipped. That words are dropped is seen with two programs and
one line (`sharedLine_loses_number`).
-/
namespace WordMachine.Command

open Files Numeric Machine

/-! ## Runs -/

/-- A run: the machine it starts with, and its limit. -/
structure Run where
  start : Machine
  limit : Nat

namespace Run

def steps (r : Run) : List Machine :=
  r.start.stepsOfCall (.run (answersUpTo (r.limit - r.start.steps)))

def last (r : Run) : Machine :=
  (r.start.run r.limit).1

def taken (r : Run) : List String :=
  r.steps.filterMap takenWord?

def numbers (r : Run) : List Number :=
  r.steps.filterMap taken?

/-- What is left of the line that was read last. -/
def dropped (r : Run) : List String :=
  r.last.stream.pending

/-- The words that are gone after the run. -/
def used (r : Run) : List String :=
  r.taken ++ r.dropped

/-- The text after the line that was read last. -/
def left (r : Run) : List Char :=
  r.last.stream.text

theorem visits (r : Run) : Visits r.start r.steps r.last := by
  have begun : Visits r.start [] r.start := .start
  have called := begun.call (.run (answersUpTo (r.limit - r.start.steps)))
  rw [last, run_eq_call]
  exact called

end Run

/-- What is known of a run that reads from a text. -/
structure ReadsFrom (r : Run) (text : List Char) : Prop where
  words : Text.words text = r.used ++ Text.words r.left
  numbers : r.numbers = r.taken.filterMap Number.read?
  /-- A call of the routine that reads faults for want of input exactly when all words have been taken. -/
  exhausted : ∀ earlier m later, r.steps = earlier ++ m :: later → m.reads = true →
    ((∃ f, m.step.2 = some (.fault f) ∧ f.cause = .inputExhausted) ↔
      Text.words text = earlier.filterMap takenWord?)

/-- A run takes the words of its text from the front, and drops what is left of the last line it looked at. -/
theorem readsFrom_of_supplied {r : Run} {text : List Char} (supplied : r.start.supply.input = .stream { text }) :
    ReadsFrom r text := by
  have visits := r.visits
  have given : (NumberStream.mk [] text).words = Text.words text := rfl
  constructor
  case words =>
    obtain ⟨left, here, parts⟩ := visits.words supplied
    rw [Run.used, Run.dropped, Run.left, stream_eq here, List.append_assoc, ← given, ← parts]
    rfl
  case numbers => exact visits.numbers supplied
  case exhausted =>
    intro earlier m later split reads
    obtain ⟨left, here, parts⟩ := (visits.before split).words supplied
    rw [exhausted_iff here reads, ← given, ← parts]
    simp

/-! ## The runs of a command -/

section

variable (patience : Nat) (settings : Settings) (dialect : Dialect)

/-- The program of a file is run, from the progress that building it leaves. -/
structure Runs (path : Path) (p : Progress) (r : Run) (assembly : Assembly) (q : Progress) : Prop where
  built : ∃ program, Built settings dialect path p program q ∧ program.executable = .ok assembly
  wanted : settings.run = true
  ran : Ran patience settings assembly q r.start (some (r.start.run r.limit))

/-- No program of the file is run. -/
def Unrun (path : Path) (p : Progress) : Prop :=
  ∀ r assembly q, ¬ Runs patience settings dialect path p r assembly q

/-- The runs of the programs of files, in order, up to the file that stops the command, if there is one, and the
input text that they leave. -/
inductive RunsOfAll : List Path → Progress → List Run → List Char → Prop where
  | none {p : Progress} : RunsOfAll [] p [] p.input
  | unrun {path : Path} {rest : List Path} {p q : Progress} {ok : Bool} {runs : List Run} {left : List Char}
      (done : FileDone patience settings dialect path p ok q) (none : Unrun patience settings dialect path p)
      (later : RunsOfAll rest q runs left) : RunsOfAll (path :: rest) p runs left
  | run {path : Path} {rest : List Path} {p q after : Progress} {r : Run} {assembly : Assembly} {ok : Bool}
      {runs : List Run} {left : List Char} (first : Runs patience settings dialect path p r assembly q)
      (done : RunDone patience settings path assembly q ok after) (later : RunsOfAll rest after runs left) :
    RunsOfAll (path :: rest) p (r :: runs) left
  | stopped {path : Path} {rest : List Path} {p : Progress} {a : Abort}
      (stops : FileStops patience settings dialect path p a) (none : Unrun patience settings dialect path p) :
    RunsOfAll (path :: rest) p [] p.input
  | brokenOff {path : Path} {rest : List Path} {p q : Progress} {r : Run} {assembly : Assembly} {a : Abort}
      (first : Runs patience settings dialect path p r assembly q)
      (stops : RunStops patience settings path assembly q a) : RunsOfAll (path :: rest) p [r] r.left

variable {patience settings dialect}

/-! ## What takes nothing from the input -/

theorem Delivered.input {p q : Progress} {file : Path} {text : String} (delivered : Delivered p file text q) :
    q.input = p.input := by
  cases delivered
  rfl

theorem Listed.input {path : Path} {product : Product} {p q : Progress} (listed : Listed settings path product p q) :
    q.input = p.input := by
  cases listed with
  | unwanted => rfl
  | written _ delivered => exact delivered.input

theorem Built.input {path : Path} {p q : Progress} {program : Program}
    (built : Built settings dialect path p program q) : q.input = p.input := by
  obtain ⟨source, -, -, listed⟩ := built.made
  exact listed.input

theorem Traced.input {path : Path} {m : Machine} {p q : Progress} (traced : Traced settings path m p q) :
    q.input = p.input := by
  cases traced with
  | unrecorded => rfl
  | written _ _ delivered => exact delivered.input

theorem Progress.input_endsLine (p : Progress) (m : Machine) : (p.endsLine m).input = p.input := by
  unfold endsLine
  split <;> rfl

theorem Progress.input_reporting (p : Progress) (path : Path) (failure : AssemblyFailure) :
    (p.reporting path failure).input = p.input := by
  have told (messages : List String) : (messages.foldl complaining p).input = p.input := by
    induction messages using List.reverseRecOn with
    | nil => rfl
    | append_singleton messages message ih => simpa [complaining] using ih
  exact told _

/-! ## Runs of files -/

section

variable {path : Path} {p q : Progress} {r : Run} {assembly : Assembly}

/-- A run starts with a reader of the text that is left. -/
theorem Runs.supplied (runs : Runs patience settings dialect path p r assembly q) :
    r.start.supply.input = .stream { text := p.input } := by
  obtain ⟨⟨program, built, -⟩, -, ran⟩ := runs
  obtain ⟨memory, -, made⟩ := bind_eq_ok_iff.mp ran.loaded
  rw [← Except.ok.inj made, ← built.input]

/-- The program of a file reads from what the programs before it have left. -/
theorem Runs.readsFrom (runs : Runs patience settings dialect path p r assembly q) : ReadsFrom r p.input :=
  readsFrom_of_supplied runs.supplied

/-- The machine that the run ends with is the one that is reported. -/
theorem Runs.last_eq (runs : Runs patience settings dialect path p r assembly q) {m last : Machine}
    {trouble : Option Trouble} (ran : Ran patience settings assembly q m (some (last, trouble))) : r.last = last := by
  obtain rfl : r.start = m := Except.ok.inj (runs.ran.loaded.symm.trans ran.loaded)
  exact congrArg Prod.fst (Option.some.inj (runs.ran.ended.symm.trans ran.ended))

theorem input_afterRun {m : Machine} {s : NumberStream} (here : m.supply.input = .stream s) (p : Progress) :
    (p.afterRun m).input = s.text := by
  simp [Progress.afterRun, Progress.printing, here]

/-- A run leaves the text after the line that it read last. -/
theorem Runs.left (runs : Runs patience settings dialect path p r assembly q) {ok : Bool} {after : Progress}
    (done : RunDone patience settings path assembly q ok after) : after.input = r.left := by
  obtain ⟨left, here, -⟩ := r.visits.words runs.supplied
  have same {m last : Machine} {trouble : Option Trouble}
      (ran : Ran patience settings assembly q m (some (last, trouble))) (p : Progress) :
      (p.afterRun last).input = r.left := by
    rw [← runs.last_eq ran, input_afterRun here, Run.left, stream_eq here]
  cases done with
  | halted ran _ traced => rw [Progress.input_endsLine, traced.input, same ran]
  | cancelled ran _ traced =>
    show (Progress.endsLine _ _).input = _
    rw [Progress.input_endsLine, traced.input, same ran]
  | faulted ran _ traced =>
    rw [traced.input]
    show (Progress.endsLine _ _).input = _
    rw [Progress.input_endsLine, same ran]

/-- What cannot be written was not written. -/
theorem undelivered {p q : Progress} {file : Path} {text : String} {e : FileError}
    (failed : Undeliverable p.tree file e) (delivered : Delivered p file text q) : False := by
  cases delivered with
  | written room wrote =>
    cases failed with
    | room failed => cases room.symm.trans failed
    | write again failed =>
      cases room.symm.trans again
      obtain ⟨place, found, put⟩ := bind_eq_ok_iff.mp wrote
      unfold FileTree.write at failed
      rw [found] at failed
      dsimp only [bind, Except.bind] at put failed
      split at put
      · cases put
      next free =>
        rw [if_neg free] at failed
        cases failed

theorem readSource_of_built {path : Path} {p q : Progress} {program : Program}
    (built : Built settings dialect path p program q) : ∃ source, readSource p.tree path = .ok source ∧
      (productOf settings dialect path source).value.outcome = .ok program := by
  obtain ⟨source, read, made, -⟩ := built.made
  exact ⟨source, read, made⟩

section

variable {path : Path} {p q : Progress}

/-- A file that is not built has no run. -/
theorem unrun_of_unbuilt (unbuilt : ∀ program q, ¬ Built settings dialect path p program q) :
    Unrun patience settings dialect path p := by
  intro r assembly q runs
  obtain ⟨⟨program, built, -⟩, -, -⟩ := runs
  exact unbuilt program q built

theorem unrun_of_refused {source : String} {refusal : Refusal} (read : readSource p.tree path = .ok source)
    (failed : (productOf settings dialect path source).value.outcome = .error refusal) :
    Unrun patience settings dialect path p := by
  apply unrun_of_unbuilt
  intro program q built
  obtain ⟨other, found, made⟩ := readSource_of_built built
  cases read.symm.trans found
  cases failed.symm.trans made

/-- The run of an executable program. -/
theorem exists_runs {program : Program} {assembly : Assembly} (built : Built settings dialect path p program q)
    (wanted : settings.run = true) (executable : program.executable = .ok assembly) {m : Machine}
    {result : Machine × Option Trouble} (ran : Ran patience settings assembly q m (some result)) :
    ∃ r, Runs patience settings dialect path p r assembly q := by
  obtain ⟨count, run⟩ := exists_run_of_runPatiently ran.ended
  exact ⟨⟨m, count⟩, ⟨⟨program, built, executable⟩, wanted, ⟨ran.loaded, by rw [ran.ended, ← run]⟩⟩⟩

theorem RunDone.ran {assembly : Assembly} {ok : Bool}
    (done : RunDone patience settings path assembly p ok q) :
    ∃ m result, Ran patience settings assembly p m (some result) := by
  cases done with
  | halted ran => exact ⟨_, _, ran⟩
  | cancelled ran => exact ⟨_, _, ran⟩
  | faulted ran => exact ⟨_, _, ran⟩

theorem RunStops.ran {assembly : Assembly} {a : Abort} (stops : RunStops patience settings path assembly p a) :
    ∃ m result, Ran patience settings assembly p m (some result) := by
  cases stops with
  | unreadable ran => exact ⟨_, _, ran⟩
  | unwritable ran => exact ⟨_, _, ran⟩
  | nowhere ran => exact ⟨_, _, ran⟩
  | trace ran => exact ⟨_, _, ran⟩

/-- A file that is done with was run, or has taken nothing from the input. -/
theorem FileDone.ran_or_unrun {ok : Bool} (done : FileDone patience settings dialect path p ok q) :
    (∃ r assembly between, Runs patience settings dialect path p r assembly between ∧
      RunDone patience settings path assembly between ok q) ∨
    Unrun patience settings dialect path p ∧ q.input = p.input := by
  cases done with
  | undecodable unread =>
    refine Or.inr ⟨unrun_of_unbuilt fun program q built => ?_, rfl⟩
    obtain ⟨source, read, -⟩ := readSource_of_built built
    cases unread.symm.trans read
  | @refused source failure _ read failed listed =>
    refine Or.inr ⟨unrun_of_refused read failed, ?_⟩
    rw [listed.input, Progress.input_reporting]
    rfl
  | built built unwanted =>
    refine Or.inr ⟨fun r assembly between runs => ?_, built.input⟩
    cases unwanted.symm.trans runs.wanted
  | notExecutable built _ other =>
    refine Or.inr ⟨fun r assembly between runs => ?_, built.input⟩
    obtain ⟨⟨program, again, executable⟩, -, -⟩ := runs
    obtain ⟨source, read, made⟩ := readSource_of_built built
    obtain ⟨source', read', made'⟩ := readSource_of_built again
    cases read.symm.trans read'
    cases made.symm.trans made'
    cases other.symm.trans executable
  | ran built wanted executable run =>
    obtain ⟨m, result, ran⟩ := run.ran
    obtain ⟨r, runs⟩ := exists_runs built wanted executable ran
    exact Or.inl ⟨r, _, _, runs, run⟩

/-- A file that stops the command does so when it is run, or is not run. -/
theorem FileStops.ran_or_unrun {a : Abort} (stops : FileStops patience settings dialect path p a) :
    (∃ r assembly between, Runs patience settings dialect path p r assembly between ∧
      RunStops patience settings path assembly between a) ∨ Unrun patience settings dialect path p := by
  cases stops with
  | unreadable read stuck | unwritable read stuck => exact Or.inr (unrun_of_refused read stuck)
  | listing wanted failed =>
    refine Or.inr (unrun_of_unbuilt fun program q built => ?_)
    obtain ⟨source, -, -, listed⟩ := built.made
    cases listed with
    | unwanted off => cases off.symm.trans wanted
    | @written after _ delivered =>
      exact undelivered (p := p.warned (productOf settings dialect path source).warnings) failed delivered
  | run built wanted executable stops =>
    obtain ⟨m, result, ran⟩ := stops.ran
    obtain ⟨r, runs⟩ := exists_runs built wanted executable ran
    exact Or.inl ⟨r, _, _, runs, stops⟩

end

/-- Files that are done with, in front of the others. -/
theorem FilesDone.runsOfAll {files rest : List Path} {p q : Progress} {ok : Bool}
    (done : FilesDone patience settings dialect files p ok q)
    (later : ∃ runs left, RunsOfAll patience settings dialect rest q runs left) :
    ∃ runs left, RunsOfAll patience settings dialect (files ++ rest) p runs left := by
  induction done with
  | none => exact later
  | next first _ ih =>
    obtain ⟨runs, left, others⟩ := ih later
    rcases first.ran_or_unrun with ⟨r, assembly, between, here, done⟩ | ⟨unrun, -⟩
    · exact ⟨r :: runs, left, .run here done others⟩
    · exact ⟨runs, left, .unrun first unrun others⟩

/-- However the work on the files ends, it is known which programs were run. -/
theorem exists_runsOfAll {files : List Path} {p : Progress} {result : Except Abort Bool × Progress}
    (ends : FilesEnd patience settings dialect files p (some result)) :
    ∃ runs left, RunsOfAll patience settings dialect files p runs left := by
  cases ends with
  | done all =>
    have whole := all.runsOfAll ⟨[], _, .none⟩
    rwa [List.append_nil] at whole
  | stopped order done cause =>
    rw [order]
    refine done.runsOfAll ?_
    rcases cause.ran_or_unrun with ⟨r, assembly, between, here, stops⟩ | unrun
    · exact ⟨[r], _, .brokenOff here stops⟩
    · exact ⟨[], _, .stopped cause unrun⟩

/-! ## The account -/

/-- Each run reads from the text that the runs before it have left. -/
theorem RunsOfAll.given {files : List Path} {p : Progress} {runs : List Run} {left : List Char}
    (all : RunsOfAll patience settings dialect files p runs left) {before after : List Run} {r : Run}
    (split : runs = before ++ r :: after) :
    ∃ text, ReadsFrom r text ∧ Text.words p.input = before.flatMap Run.used ++ Text.words text := by
  induction all generalizing before with
  | none => simp at split
  | unrun done unrun _ ih =>
    rcases done.ran_or_unrun with ⟨r, assembly, between, runs, -⟩ | ⟨-, same⟩
    · exact absurd runs (unrun r assembly between)
    · exact same ▸ ih split
  | run first done _ ih =>
    have reads := first.readsFrom
    cases before with
    | nil =>
      obtain ⟨rfl, -⟩ := List.cons.inj split
      exact ⟨_, reads, by simp⟩
    | cons r' before =>
      obtain ⟨rfl, later⟩ := List.cons.inj split
      obtain ⟨text, here, parts⟩ := ih later
      refine ⟨text, here, ?_⟩
      rw [reads.words, ← first.left done, parts, List.flatMap_cons, List.append_assoc]
  | stopped => simp at split
  | brokenOff first _ =>
    cases before with
    | nil =>
      obtain ⟨rfl, -⟩ := List.cons.inj split
      exact ⟨_, first.readsFrom, by simp⟩
    | cons r' before => simp at split

/-- Each word of the input was used by one of the runs, or is left. -/
theorem RunsOfAll.words {files : List Path} {p : Progress} {runs : List Run} {left : List Char}
    (all : RunsOfAll patience settings dialect files p runs left) :
    Text.words p.input = runs.flatMap Run.used ++ Text.words left := by
  induction all with
  | none => simp
  | unrun done unrun _ ih =>
    rcases done.ran_or_unrun with ⟨r, assembly, between, runs, -⟩ | ⟨-, same⟩
    · exact absurd runs (unrun r assembly between)
    · exact same ▸ ih
  | run first done _ ih =>
    rw [first.readsFrom.words, ← first.left done, ih, List.flatMap_cons, List.append_assoc]
  | stopped => simp
  | brokenOff first _ => simpa using first.readsFrom.words

end

end

/-- What was dropped after the last run does not stand between words that were taken. -/
theorem taken_isPrefix_used {runs : List Run} (whole : ∀ r ∈ runs.dropLast, r.dropped = []) :
    runs.flatMap Run.taken <+: runs.flatMap Run.used := by
  induction runs with
  | nil => exact List.nil_prefix
  | cons r rest ih =>
    cases rest with
    | nil => simp [Run.used]
    | cons next rest =>
      rw [List.dropLast_cons_cons, List.forall_mem_cons] at whole
      have used : r.used = r.taken := by rw [Run.used, whole.1, List.append_nil]
      have parts (f : Run → List String) : (r :: next :: rest).flatMap f = f r ++ (next :: rest).flatMap f := rfl
      rw [parts, parts, used]
      exact (List.prefix_append_right_inj _).mpr (ih whole.2)

/-- What becomes of the words of the input, given the runs of the programs in order and the text that they leave. -/
structure InputAccounted (input : String) (runs : List Run) (left : List Char) : Prop where
  /-- Each word is taken by one of the programs, or dropped after it with the line on which it stopped, or left. -/
  words : Text.words input.toList = runs.flatMap Run.used ++ Text.words left
  /-- The numbers read are those that the words taken stand for. -/
  numbers : ∀ r ∈ runs, r.numbers = r.taken.filterMap Number.read?
  /-- A read faults for want of input exactly when no word is left that was not taken or dropped before. -/
  exhausted : ∀ before r after, runs = before ++ r :: after → ∀ earlier m later, r.steps = earlier ++ m :: later →
    m.reads = true → ((∃ f, m.step.2 = some (.fault f) ∧ f.cause = .inputExhausted) ↔
      Text.words input.toList = before.flatMap Run.used ++ earlier.filterMap takenWord?)
  /-- If all programs but the last stop at the end of a line, the words taken are the first ones of the input. -/
  inOrder : (∀ r ∈ runs.dropLast, r.dropped = []) → runs.flatMap Run.taken <+: Text.words input.toList

/-- No word is read twice, and one is lost only with the line that a program read last. -/
theorem RunsOfAll.accounted {patience : Nat} {settings : Settings} {dialect : Dialect} {files : List Path}
    {p : Progress} {runs : List Run} {left : List Char} (all : RunsOfAll patience settings dialect files p runs left)
    {input : String} (given : p.input = Text.unifyLineEnds input.toList) : InputAccounted input runs left := by
  have same : Text.words input.toList = Text.words p.input := by rw [given, Text.words_unifyLineEnds]
  constructor
  case words => rw [same, all.words]
  case numbers =>
    intro r member
    obtain ⟨before, after, split⟩ := List.append_of_mem member
    obtain ⟨text, reads, -⟩ := all.given split
    exact reads.numbers
  case exhausted =>
    intro before r after split earlier m later steps reading
    obtain ⟨text, reads, parts⟩ := all.given split
    rw [reads.exhausted earlier m later steps reading, same, parts, List.append_cancel_left_eq]
  case inOrder =>
    intro whole
    rw [same, all.words]
    exact (taken_isPrefix_used whole).trans (List.prefix_append _ _)

/-! ## The whole command -/

/-- With settings that can be read, the command is carried out on its files. -/
theorem outcome_build {s : Surroundings} {arguments : List String} {choices : Choices} {environment : Settings}
    (request : Request.read s.tree arguments = .ok (.build choices))
    (given : (Settings.ofEnvironment s.environment).value = .ok environment) (patience : Nat) :
    ∃ dialect : Dialect, dialect.name = (choices.over environment).language ∧
      outcome (build patience s.environment choices)
        { tree := s.tree, input := Text.unifyLineEnds s.input.toList, draws := { all := s.draws } } =
      outcome (processFiles patience (choices.over environment) dialect choices.files) s.start := by
  obtain ⟨dialect, named⟩ := exists_dialect request given
  have selected : Dialect.select (some (choices.over environment).language) = .ok dialect := by
    rw [← named]
    exact select_name dialect
  refine ⟨dialect, named, ?_⟩
  unfold build
  dsimp only
  rw [given, orStop, pure_bind, selected]
  rfl

/-- Whatever the command is given to read, each word of it is taken by one program, in order, or dropped with the line
on which a program stopped, or left. -/
theorem input_accounted {s : Surroundings} {arguments : List String} {choices : Choices} {environment : Settings}
    {patience : Nat} {report : Report} (request : Request.read s.tree arguments = .ok (.build choices))
    (given : (Settings.ofEnvironment s.environment).value = .ok environment)
    (reported : run? patience s arguments = some report) :
    ∃ (dialect : Dialect) (runs : List Run) (left : List Char),
      dialect.name = (choices.over environment).language ∧
      RunsOfAll patience (choices.over environment) dialect choices.files s.start runs left ∧
      InputAccounted s.input runs left := by
  obtain ⟨dialect, named, begun⟩ := outcome_build request given patience
  rw [run?_of_read request, begun] at reported
  obtain ⟨result, ended, -⟩ := Option.map_eq_some_iff.mp reported
  have ends := ended ▸ filesEnd_processFiles choices.files s.start
  obtain ⟨runs, left, all⟩ := exists_runsOfAll ends
  exact ⟨dialect, runs, left, named, all, all.accounted rfl⟩

/-- The two files, each with a program that reads one number and goes on to a word that is no instruction, and an
input. -/
def twoReaders (input : String) : Surroundings :=
  { twoFiles "READ" "READ" with input }

def runTwo : Choices :=
  { listTwo with list := false, run := true }

theorem read_runTwo (input : String) :
    Request.read (twoReaders input).tree ["-r", "a.x", "b.x"] = .ok (.build runTwo) := by
  cbv

def errorsOfTwo (input : String) : Option String :=
  (run? 10 (twoReaders input) ["-r", "a.x", "b.x"]).map (·.errors)

theorem errorsOfTwo_eq (input : String) : errorsOfTwo input =
    (outcome (build 10 [] runTwo) (twoReaders input).start).map fun (result, p) => (reportOf result p).errors := by
  rw [errorsOfTwo, run?_of_read (read_runTwo input), Option.map_map]
  rfl

/-- Two numbers on two lines are read by the two programs. -/
theorem twoLines_accounted :
    errorsOfTwo "1\n2\n" = some ("a.x: run error: fault at 0009: invalid address: executing integer data at 0009\n" ++
      "b.x: run error: fault at 0009: invalid address: executing integer data at 0009\n") ∧
    ∃ report, run? 10 (twoReaders "1\n2\n") ["-r", "a.x", "b.x"] = some report ∧
      ∃ (dialect : Dialect) (runs : List Run) (left : List Char),
        dialect.name = (runTwo.over (Settings.normalized {})).language ∧
        RunsOfAll 10 (runTwo.over (Settings.normalized {})) dialect runTwo.files (twoReaders "1\n2\n").start runs left ∧
        InputAccounted "1\n2\n" runs left := by
  have errors : errorsOfTwo "1\n2\n" =
      some ("a.x: run error: fault at 0009: invalid address: executing integer data at 0009\n" ++
        "b.x: run error: fault at 0009: invalid address: executing integer data at 0009\n") := by
    rw [errorsOfTwo_eq]
    decide +kernel
  obtain ⟨report, reported, -⟩ := Option.map_eq_some_iff.mp errors
  exact ⟨errors, report, reported, input_accounted (read_runTwo "1\n2\n") rfl reported⟩

/-- Two numbers on one line: the second one is gone with the reader of the first program, and the second program
finds its input exhausted. -/
theorem sharedLine_loses_number :
    errorsOfTwo "1 2\n" = some ("a.x: run error: fault at 0009: invalid address: executing integer data at 0009\n" ++
      "b.x: run error: fault at 0008 (READ): input exhausted: READ with no input left\n") := by
  rw [errorsOfTwo_eq]
  decide +kernel

end WordMachine.Command
