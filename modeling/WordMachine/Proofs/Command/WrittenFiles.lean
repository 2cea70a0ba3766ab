import WordMachine.Proofs.Command.Input
import WordMachine.Proofs.Files.Tree
import WordMachine.Proofs.Machine.Tracing

/-!
# The files that a command writes

Of each file that can be read the command writes a listing, if listings are wanted, and a trace, if its program is run
and traces are wanted. Their names are made of the stem of the name of the source and of nothing else. So a listing may
come to the place of an earlier listing, a trace to that of an earlier trace, and either to that of a source; what
was there is gone (`sharedStem_loses_listing`). Where no two of them meet, each source stays as it was and each
listing and trace is in its file (`FilesWritten`).
-/
namespace WordMachine.Command

open Files

/-! ## Names of results -/

theorem proper_append (stem : String) {suffix : String} (long : 2 < suffix.toList.length) :
    stem ++ suffix ≠ "" ∧ stem ++ suffix ≠ "." ∧ stem ++ suffix ≠ ".." := by
  have longer (name : String) (short : name.toList.length ≤ 2) : stem ++ suffix ≠ name := by
    rintro rfl
    rw [String.toList_append, List.length_append] at short
    omega
  exact ⟨longer "" (by decide), longer "." (by decide), longer ".." (by decide)⟩

/-- No listing comes to the place of a trace. -/
theorem place_listingFile_ne {tree : FileTree} {settings : Settings} {path other : Path} {place : Route}
    (traced : tree.place (settings.traceFile other) = .ok place) :
    tree.place (settings.listingFile path) ≠ tree.place (settings.traceFile other) := by
  intro same
  rw [traced] at same
  obtain ⟨around, rfl⟩ := FileTree.exists_place_child (proper_append _ (by decide)) same
  obtain ⟨around', parts⟩ := FileTree.exists_place_child (proper_append _ (by decide)) traced
  have name := (List.append_inj' parts rfl).2
  have letters := congrArg String.toList (List.singleton_inj.mp name)
  rw [String.toList_append, String.toList_append] at letters
  exact absurd (List.append_inj' letters rfl).2 (by decide)

/-! ## The results of one file -/

section

variable (patience : Nat) (settings : Settings) (dialect : Dialect) (path : Path) (p : Progress)

def listingOf (source : String) : Result :=
  ⟨settings.listingFile path, (productOf settings dialect path source).value.listingText path.text⟩

/-- The results of a file where listings are wanted. -/
inductive ResultsOf : List Result → Prop where
  | unread {reason : String} (unread : readSource p.tree path = .error reason) : ResultsOf []
  | untraced {source : String} (read : readSource p.tree path = .ok source)
      (untraced : settings.trace = false ∨ Unrun patience settings dialect path p) :
    ResultsOf [listingOf settings dialect path source]
  | traced {source text : String} {r : Run} {assembly : Assembly} {q : Progress} {records : Array TraceRecord}
      (read : readSource p.tree path = .ok source) (wanted : settings.trace = true)
      (runs : Runs patience settings dialect path p r assembly q) (kept : r.last.trace = some records)
      (shown : Trace.render records.toList = .ok text) :
    ResultsOf [listingOf settings dialect path source, ⟨settings.traceFile path, text⟩]

end

section

variable {patience : Nat} {settings : Settings} {dialect : Dialect} {path : Path} {p q : Progress}

theorem Delivered.receives {file : Path} {text : String} (delivered : Delivered p file text q) :
    p.tree.Receives [⟨file, text⟩] q.tree := by
  cases delivered with
  | written room wrote => exact .next room wrote .none

theorem Listed.receives {product : Product} (listed : Listed settings path product p q)
    (wanted : settings.list = true) :
    p.tree.Receives [⟨settings.listingFile path, product.listingText path.text⟩] q.tree := by
  cases listed with
  | unwanted off => cases off.symm.trans wanted
  | written _ delivered => exact delivered.receives

/-- A run records a trace exactly if one is wanted. -/
theorem Runs.recorded {r : Run} {assembly : Assembly} (runs : Runs patience settings dialect path p r assembly q) :
    r.last.trace.isSome = settings.trace := by
  obtain ⟨memory, -, made⟩ := bind_eq_ok_iff.mp runs.ran.loaded
  have fresh : r.start.trace = if settings.trace then some #[] else none := by rw [← Except.ok.inj made]
  obtain ⟨records, last, performs, stopped⟩ :=
    Machine.exists_performs_run (Machine.answersUpTo (r.limit - r.start.steps)) r.start
  rw [Run.last, Machine.run_eq_call]
  show (r.start.call _).machine.trace.isSome = _
  rw [stopped.kept.1, performs.trace, fresh]
  cases settings.trace <;> rfl

/-- The trace of a machine, if there is one, is written from the one tree to the other. -/
def Leaves (settings : Settings) (path : Path) (m : Machine) (tree after : FileTree) : Prop :=
  m.trace = none ∧ after = tree ∨ ∃ records text, m.trace = some records ∧ Trace.render records.toList = .ok text ∧
    tree.Receives [⟨settings.traceFile path, text⟩] after

theorem Traced.leaves {m : Machine} (traced : Traced settings path m p q) : Leaves settings path m p.tree q.tree := by
  cases traced with
  | unrecorded none => exact Or.inl ⟨none, rfl⟩
  | written kept shown delivered => exact Or.inr ⟨_, _, kept, shown, delivered.receives⟩

/-- A run that is done with has written its trace. -/
theorem RunDone.leaves {assembly : Assembly} {r : Run} {before after : Progress} {ok : Bool}
    (runs : Runs patience settings dialect path before r assembly p)
    (done : RunDone patience settings path assembly p ok after) :
    Leaves settings path r.last p.tree after.tree := by
  cases done with
  | @halted m last location q ran status traced =>
    rw [runs.last_eq ran, Progress.tree_endsLine]
    exact traced.leaves
  | @cancelled m last q ran status traced =>
    show Leaves settings path r.last p.tree (q.endsLine last).tree
    rw [runs.last_eq ran, Progress.tree_endsLine]
    exact traced.leaves
  | @faulted m last f q ran status traced =>
    have leaves := traced.leaves
    rw [← runs.last_eq ran] at leaves
    have tree : ((p.afterRun r.last).endsLine r.last).tree = p.tree := Progress.tree_endsLine _ _
    exact tree ▸ leaves

/-- A program that was built has its listing written. -/
theorem Built.receives {program : Program} (built : Built settings dialect path p program q)
    (wanted : settings.list = true) : ∃ source, readSource p.tree path = .ok source ∧
      p.tree.Receives [listingOf settings dialect path source] q.tree := by
  obtain ⟨source, read, -, listed⟩ := built.made
  exact ⟨source, read, listed.receives wanted⟩

/-- The results of a file that is done with are written one after the other. -/
theorem FileDone.exists_results {ok : Bool} (wanted : settings.list = true)
    (done : FileDone patience settings dialect path p ok q) :
    ∃ results, ResultsOf patience settings dialect path p results ∧ p.tree.Receives results q.tree := by
  rcases done.ran_or_unrun with ⟨r, assembly, between, runs, finished⟩ | ⟨unrun, -⟩
  · obtain ⟨program, built, -⟩ := runs.built
    obtain ⟨source, read, listed⟩ := built.receives wanted
    rcases finished.leaves runs with ⟨none, same⟩ | ⟨records, text, kept, shown, traced⟩
    · have untraced : settings.trace = false := by rw [← runs.recorded, none, Option.isSome_none]
      exact ⟨_, .untraced read (.inl untraced), same ▸ listed⟩
    · have recorded : settings.trace = true := by rw [← runs.recorded, kept, Option.isSome_some]
      exact ⟨_, .traced read recorded runs kept shown, listed.append traced⟩
  · cases done with
    | undecodable unread => exact ⟨_, .unread unread, .none⟩
    | refused read _ listed =>
      have whole := listed.receives wanted
      rw [Progress.tree_reporting] at whole
      exact ⟨_, .untraced read (.inr unrun), whole⟩
    | built built =>
      obtain ⟨source, read, listed⟩ := built.receives wanted
      exact ⟨_, .untraced read (.inr unrun), listed⟩
    | notExecutable built =>
      obtain ⟨source, read, listed⟩ := built.receives wanted
      exact ⟨_, .untraced read (.inr unrun), listed⟩
    | ran built running executable run =>
      obtain ⟨m, result, ran⟩ := run.ran
      obtain ⟨r, runs⟩ := exists_runs built running executable ran
      exact absurd runs (unrun r _ _)

end

/-! ## The results of all files -/

section

variable (patience : Nat) (settings : Settings) (dialect : Dialect)

/-- The results of files that are done with, in order, and the progress that is left in the end. -/
inductive ResultsOfAll : List Path → Progress → List Result → Progress → Prop where
  | none {p : Progress} : ResultsOfAll [] p [] p
  | next {path : Path} {rest : List Path} {p q last : Progress} {ok : Bool} {own others : List Result}
      (done : FileDone patience settings dialect path p ok q) (results : ResultsOf patience settings dialect path p own)
      (written : p.tree.Receives own q.tree) (later : ResultsOfAll rest q others last) :
    ResultsOfAll (path :: rest) p (own ++ others) last

/-- What is in the files that were written for a source, given the progress that it was taken up with and the results
of the files after it. -/
structure SourceWritten (path : Path) (source : String) (here : Progress) (later : List Result) (tree : FileTree) :
    Prop where
  /-- Its listing is in its file unless the listing of a file after it went to the same place. -/
  listed : tree.Spares later (settings.listingFile path) →
    tree.read (settings.listingFile path) = .ok (listingOf settings dialect path source).text.toUTF8
  /-- If its program was run and traces are wanted, its trace is in its file unless one of a file after it went to
  the same place. -/
  traced : settings.trace = true → ¬ Unrun patience settings dialect path here →
    ∃ r assembly q records text, Runs patience settings dialect path here r assembly q ∧
      r.last.trace = some records ∧ Trace.render records.toList = .ok text ∧
      (tree.Spares later (settings.traceFile path) → tree.read (settings.traceFile path) = .ok text.toUTF8)

/-- What is in the files of a command that has done with all its sources. -/
structure FilesWritten (files : List Path) (p : Progress) (results : List Result) (last : Progress) : Prop where
  all : ResultsOfAll patience settings dialect files p results last
  /-- A file, be it a source or not, is as before unless a result went to its place. -/
  kept : ∀ file content, p.tree.read file = .ok content → last.tree.Spares results file →
    last.tree.read file = .ok content
  /-- A source has the files that were written for it, unless a result of a file before it went to its place. -/
  sources : ∀ before path after, files = before ++ path :: after → ∃ earlier own later here next,
    results = earlier ++ (own ++ later) ∧ ResultsOfAll patience settings dialect before p earlier here ∧
    ResultsOf patience settings dialect path here own ∧ ResultsOfAll patience settings dialect after next later last ∧
    ∀ source, readSource p.tree path = .ok source → last.tree.Spares earlier path →
      SourceWritten patience settings dialect path source here later last.tree

end

section

variable {patience : Nat} {settings : Settings} {dialect : Dialect} {files : List Path} {p last : Progress}
  {results : List Result}

theorem FilesDone.exists_results {ok : Bool} (wanted : settings.list = true)
    (done : FilesDone patience settings dialect files p ok last) :
    ∃ results, ResultsOfAll patience settings dialect files p results last := by
  induction done with
  | none => exact ⟨[], .none⟩
  | next first _ ih =>
    obtain ⟨own, these, written⟩ := first.exists_results wanted
    obtain ⟨others, later⟩ := ih
    exact ⟨own ++ others, .next first these written later⟩

/-- The files of the command were written in the order of the sources. -/
theorem ResultsOfAll.receives (all : ResultsOfAll patience settings dialect files p results last) :
    p.tree.Receives results last.tree := by
  induction all with
  | none => exact .none
  | next _ _ written _ ih => exact written.append ih

/-- The results before those of a file, its own, and those after them. -/
theorem ResultsOfAll.split (all : ResultsOfAll patience settings dialect files p results last)
    {before after : List Path} {path : Path} (order : files = before ++ path :: after) :
    ∃ earlier own later here next, results = earlier ++ (own ++ later) ∧
      ResultsOfAll patience settings dialect before p earlier here ∧
      ResultsOf patience settings dialect path here own ∧ here.tree.Receives own next.tree ∧
      ResultsOfAll patience settings dialect after next later last := by
  induction before generalizing files p results with
  | nil =>
    subst order
    cases all with
    | next done own written later => exact ⟨[], _, _, _, _, rfl, .none, own, written, later⟩
  | cons first rest ih =>
    subst order
    cases all with
    | @next _ _ _ _ _ _ these _ done own written others =>
      obtain ⟨earlier, own', later, here, next, parts, former, mine, wrote, after⟩ := ih others rfl
      refine ⟨these ++ earlier, own', later, here, next, ?_, .next done own written former, mine, wrote, after⟩
      rw [parts, List.append_assoc]

/-- A source is read as before if no result has gone to its place. -/
theorem readSource_of_receives {tree after final : FileTree} {path : Path} {source : String}
    (receives : tree.Receives results after) (grown : FileTree.Extends after final)
    (read : readSource tree path = .ok source) (spares : final.Spares results path) :
    readSource after path = .ok source := by
  unfold readSource at read ⊢
  cases found : tree.read path with
  | error e =>
    rw [found] at read
    cases read
  | ok content =>
    obtain ⟨place, named, -⟩ := FileTree.read_eq_ok_iff.mp found
    rw [found] at read
    rw [receives.kept found (spares.earlier grown (receives.extends.place named))]
    exact read

/-- What a file has in the end was written for the last source that it belongs to. -/
theorem ResultsOfAll.written (all : ResultsOfAll patience settings dialect files p results last) :
    FilesWritten patience settings dialect files p results last := by
  refine ⟨all, fun file content read spares => all.receives.kept read spares, ?_⟩
  intro before path after order
  obtain ⟨earlier, own, later, here, next, parts, former, mine, wrote, afterwards⟩ := all.split order
  refine ⟨earlier, own, later, here, next, parts, former, mine, afterwards, fun source read spares => ?_⟩
  have receives : here.tree.Receives (own ++ later) last.tree := wrote.append afterwards.receives
  have found := readSource_of_receives former.receives receives.extends read spares
  cases mine with
  | unread unread => cases found.symm.trans unread
  | untraced again untraced =>
    cases found.symm.trans again
    constructor
    case listed => exact receives.held (List.nil_append _).symm
    case traced =>
      intro wanted ran
      rcases untraced with off | unrun
      · cases off.symm.trans wanted
      · exact absurd unrun ran
  | @traced _ text r assembly q records again _ runs kept shown =>
    cases found.symm.trans again
    constructor
    case listed =>
      intro spares
      obtain ⟨place, named⟩ := receives.placed ⟨settings.traceFile path, text⟩ (by simp)
      apply receives.held (List.nil_append _).symm
      exact List.forall_mem_cons.mpr ⟨(place_listingFile_ne named).symm, spares⟩
    case traced =>
      intro _ _
      have parts (listing trace : Result) : [listing, trace] ++ later = [listing] ++ trace :: later := rfl
      exact ⟨r, assembly, q, records, text, runs, kept, shown, receives.held (parts _ _)⟩

end

/-! ## The whole command -/

/-- Whatever the files and settings are, if listings are wanted and all files are done with: a file is as before unless
a result went to its place, and each source has its listing and its trace, unless something went to the place of one of
them. -/
theorem files_written {s : Surroundings} {arguments : List String} {choices : Choices} {environment : Settings}
    {patience : Nat} {ok : Bool} {last : Progress} (request : Request.read s.tree arguments = .ok (.build choices))
    (given : (Settings.ofEnvironment s.environment).value = .ok environment)
    (wanted : (choices.over environment).list = true)
    (ended : outcome (build patience s.environment choices)
      { tree := s.tree, input := Text.unifyLineEnds s.input.toList, draws := { all := s.draws } } =
        some (.ok ok, last)) :
    (run? patience s arguments).map (·.tree) = some last.tree ∧
    ∃ (dialect : Dialect) (results : List Result), dialect.name = (choices.over environment).language ∧
      FilesWritten patience (choices.over environment) dialect choices.files s.start results last := by
  constructor
  · rw [run?_of_read request, ended]
    cases ok <;> rfl
  · obtain ⟨dialect, named, begun⟩ := outcome_build request given patience
    have ends := begun.symm.trans ended ▸ filesEnd_processFiles choices.files s.start
    cases ends with
    | done all =>
      obtain ⟨results, these⟩ := all.exists_results wanted
      exact ⟨dialect, results, named, these.written⟩

def traceTwo : Choices :=
  { listTwo with trace := true }

/-- Two programs that stop at once are listed and traced. -/
theorem tracedFiles_written : Request.read (twoFiles "STOP" "STOP").tree ["-l", "-t", "a.x", "b.x"] =
      .ok (.build traceTwo) ∧
    ((run? 10 (twoFiles "STOP" "STOP") ["-l", "-t", "a.x", "b.x"]).map fun report =>
      report.tree.entries.map Prod.fst) =
      some [["a.x"], ["b.x"], ["a.lst"], ["a.out"], ["b.lst"], ["b.out"]] ∧
    ∃ last, (run? 10 (twoFiles "STOP" "STOP") ["-l", "-t", "a.x", "b.x"]).map (·.tree) = some last.tree ∧
      ∃ (dialect : Dialect) (results : List Result),
        dialect.name = (traceTwo.over (Settings.normalized {})).language ∧
        FilesWritten 10 (traceTwo.over (Settings.normalized {})) dialect traceTwo.files
          (twoFiles "STOP" "STOP").start results last := by
  have request : Request.read (twoFiles "STOP" "STOP").tree ["-l", "-t", "a.x", "b.x"] =
      .ok (.build traceTwo) := by
    cbv
  have finished : (outcome (build 10 [] traceTwo) (twoFiles "STOP" "STOP").start).map (·.1) =
      some (.ok true) := by
    decide +kernel
  obtain ⟨⟨result, last⟩, ended, rfl⟩ := Option.map_eq_some_iff.mp finished
  refine ⟨request, ?_, last, files_written request rfl rfl ended⟩
  rw [run?_of_read request]
  decide +kernel

def sharedStem : Surroundings where
  tree := ⟨[(["a.x"], .file "STOP".toUTF8), (["a.y"], .file "+1".toUTF8)]⟩

def listShared : Choices :=
  { listTwo with files := [{ names := ["a.x"] }, { names := ["a.y"] }] }

theorem read_listShared : Request.read sharedStem.tree ["-l", "a.x", "a.y"] = .ok (.build listShared) := by
  cbv

/-- The listing of the second file takes the place of that of the first one. -/
theorem sharedStem_loses_listing :
    listShared.files.map ((listShared.over (Settings.normalized {})).listingFile ·) =
      [{ names := ["a.lst"] }, { names := ["a.lst"] }] ∧
    ((run? 10 sharedStem ["-l", "a.x", "a.y"]).map fun report =>
      (report.exitCode, (readSource report.tree { names := ["a.lst"] }).toOption)) =
      some (.success, some "a.y\n========================================\n\n0008  00000001  +1\n") := by
  refine ⟨by decide +kernel, ?_⟩
  rw [run?_of_read read_listShared]
  decide +kernel

end WordMachine.Command
