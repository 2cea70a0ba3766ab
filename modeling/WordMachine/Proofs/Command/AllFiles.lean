import WordMachine.Command.Session
import WordMachine.Proofs.Command.OneFile

/-!
# What becomes of all files

The command takes its files one after the other. A file that fails is done with, and the next one is taken up
(`FilesDone`); the exit code is 0 if every file succeeded and 1 if one failed. Only a file that stops the
command (`FileStops`) leaves those after it untouched, and the exit code is then that of the cause.
-/
namespace WordMachine.Command

open Files

/-! ## Files in order -/

section

variable (patience : Nat) (settings : Settings) (dialect : Dialect)

/-- Files that are done with, each from the progress that the one before it left: whether all of them
succeeded, and what is left in the end. -/
inductive FilesDone : List Path → Progress → Bool → Progress → Prop where
  | none {p : Progress} : FilesDone [] p true p
  | next {path : Path} {rest : List Path} {p q after : Progress} {ok others : Bool}
      (first : FileDone patience settings dialect path p ok q) (later : FilesDone rest q others after) :
    FilesDone (path :: rest) p (ok && others) after

/-- How the work on all files ends: all are done, or one of them stops the command where the ones before it
are done and the ones after it are not taken up, or the program of one of them does not end. -/
inductive FilesEnd (files : List Path) (p : Progress) : Option (Except Abort Bool × Progress) → Prop where
  | done {ok : Bool} {after : Progress} (all : FilesDone patience settings dialect files p ok after) :
    FilesEnd files p (some (.ok ok, after))
  | stopped {before after : List Path} {path : Path} {ok : Bool} {q last : Progress} {a : Abort}
      (order : files = before ++ path :: after)
      (done : FilesDone patience settings dialect before p ok q)
      (cause : FileStops patience settings dialect path q a)
      (ended : outcome (processFile patience settings dialect path) q = some (.error a, last)) :
    FilesEnd files p (some (.error a, last))
  | unending {before after : List Path} {path : Path} {ok : Bool} {q : Progress}
      (order : files = before ++ path :: after)
      (done : FilesDone patience settings dialect before p ok q)
      (endless : FileEndless patience settings dialect path q) : FilesEnd files p none

variable {patience settings dialect}

/-- One more file in front of the others. -/
theorem FilesEnd.cons {path : Path} {rest : List Path} {p q : Progress} {ok : Bool}
    {result : Option (Except Abort Bool × Progress)}
    (first : FileDone patience settings dialect path p ok q)
    (later : FilesEnd patience settings dialect rest q result) :
    FilesEnd patience settings dialect (path :: rest) p
      (result.map fun (others, after) => (others.map (ok && ·), after)) := by
  cases later with
  | done all => exact .done (.next first all)
  | @stopped before after other _ _ last a order done cause ended =>
    exact @FilesEnd.stopped _ _ _ _ _ (path :: before) after other _ _ last a (by rw [order]; rfl)
      (.next first done) cause ended
  | @unending before after other _ _ order done endless =>
    exact @FilesEnd.unending _ _ _ _ _ (path :: before) after other _ _ (by rw [order]; rfl)
      (.next first done) endless

/-- The files are processed one after the other, up to one that stops the command. -/
theorem filesEnd_processFiles (files : List Path) (p : Progress) :
    FilesEnd patience settings dialect files p (outcome (processFiles patience settings dialect files) p) := by
  induction files generalizing p with
  | nil => exact .done .none
  | cons path rest ih =>
    have first := comes_processFile patience settings dialect path p
    unfold Comes at first
    rw [processFiles, outcome_bind]
    match result : outcome (processFile patience settings dialect path) p with
    | some (.ok ok, q) =>
      rw [result] at first
      have whole := (ih q).cons first
      have parts : outcome (do
          let others ← processFiles patience settings dialect rest
          return ok && others) q =
          (outcome (processFiles patience settings dialect rest) q).map
            fun (others, after) => (others.map (ok && ·), after) := by
        rw [outcome_bind]
        match outcome (processFiles patience settings dialect rest) q with
        | some (.ok others, after) => rfl
        | some (.error a, after) => rfl
        | none => rfl
      dsimp only
      rw [parts]
      exact whole
    | some (.error a, last) =>
      rw [result] at first
      exact @FilesEnd.stopped _ _ _ _ _ [] rest path true p last a rfl .none first result
    | none =>
      rw [result] at first
      exact @FilesEnd.unending _ _ _ _ _ [] rest path true p rfl .none first

end

/-! ## The dialect -/

theorem select_name (d : Dialect) : Dialect.select (some d.name) = .ok d := by
  cases d <;> decide

theorem exists_dialect_of_language {items : List Item} {name : String}
    (spoken : Request.language items = .ok (some name)) : ∃ d : Dialect, name = d.name := by
  unfold Request.language at spoken
  split at spoken
  · cases spoken
  · split at spoken
    next d _ =>
      cases spoken
      exact ⟨d, rfl⟩
    · cases spoken

/-- A language that the arguments give is that of a dialect. -/
theorem exists_dialect_of_read {tree : FileTree} {arguments : List String} {choices : Choices}
    (request : Request.read tree arguments = .ok (.build choices)) :
    ∀ name, choices.language = some name → ∃ d : Dialect, name = d.name := by
  intro name written
  obtain ⟨items, -, request⟩ := bind_eq_ok_iff.mp request
  dsimp only at request
  split at request
  · cases request
  · cases request
  · obtain ⟨c, chosen, same⟩ := map_eq_ok_iff.mp request
    cases same
    unfold Request.choices at chosen
    split at chosen
    · cases chosen
    · obtain ⟨files, -, chosen⟩ := bind_eq_ok_iff.mp chosen
      obtain ⟨language, spoken, chosen⟩ := bind_eq_ok_iff.mp chosen
      obtain ⟨listPath, -, chosen⟩ := bind_eq_ok_iff.mp chosen
      obtain ⟨tracePath, -, chosen⟩ := bind_eq_ok_iff.mp chosen
      obtain ⟨limit, -, chosen⟩ := bind_eq_ok_iff.mp chosen
      cases chosen
      dsimp only at written
      subst written
      exact exists_dialect_of_language spoken

/-- The language of the environment is that of a dialect. -/
theorem exists_dialect_of_environment {environment : List (String × String)} {settings : Settings}
    (given : (Settings.ofEnvironment environment).value = .ok settings) :
    ∃ d : Dialect, settings.language = d.name := by
  obtain ⟨maxSteps, -, rfl⟩ := map_eq_ok_iff.mp given
  show ∃ d : Dialect, (Settings.readLanguage _).value = d.name
  unfold Settings.readLanguage
  split
  · exact ⟨.symbolic, rfl⟩
  · split
    next d _ => exact ⟨d, rfl⟩
    · exact ⟨.symbolic, rfl⟩

/-- The settings of the command name a dialect. -/
theorem exists_dialect {tree : FileTree} {arguments : List String} {choices : Choices}
    {environment : List (String × String)} {settings : Settings}
    (request : Request.read tree arguments = .ok (.build choices))
    (given : (Settings.ofEnvironment environment).value = .ok settings) :
    ∃ d : Dialect, d.name = (choices.over settings).language := by
  show ∃ d : Dialect, d.name = choices.language.getD settings.language
  cases written : choices.language with
  | none =>
    obtain ⟨d, named⟩ := exists_dialect_of_environment given
    exact ⟨d, named.symm⟩
  | some name =>
    obtain ⟨d, named⟩ := exists_dialect_of_read request name written
    exact ⟨d, named.symm⟩

/-! ## The whole command -/

def Surroundings.start (s : Surroundings) : Progress :=
  Progress.warned { tree := s.tree, input := Text.unifyLineEnds s.input.toList, draws := { all := s.draws } }
    (Settings.ofEnvironment s.environment).warnings

/-- What the command reports of the files it was given. -/
inductive Account (patience : Nat) (s : Surroundings) (choices : Choices) : Option Report → Prop where
  /-- The step limit of the environment cannot be read, and no file is taken up. -/
  | misconfigured {e : Text.NumeralError} (given : (Settings.ofEnvironment s.environment).value = .error e) :
    Account patience s choices (some (reportOf (.error (.setting e)) s.start))
  | finished {environment : Settings} {dialect : Dialect} {ok : Bool} {last : Progress}
      (given : (Settings.ofEnvironment s.environment).value = .ok environment)
      (named : dialect.name = (choices.over environment).language)
      (all : FilesDone patience (choices.over environment) dialect choices.files s.start ok last) :
    Account patience s choices
      (some ⟨if ok then .success else .buildError, last.output, last.errors, last.tree⟩)
  | stopped {environment : Settings} {dialect : Dialect} {before after : List Path} {path : Path} {ok : Bool}
      {q last : Progress} {a : Abort}
      (given : (Settings.ofEnvironment s.environment).value = .ok environment)
      (named : dialect.name = (choices.over environment).language)
      (order : choices.files = before ++ path :: after)
      (done : FilesDone patience (choices.over environment) dialect before s.start ok q)
      (cause : FileStops patience (choices.over environment) dialect path q a)
      (ended : outcome (processFile patience (choices.over environment) dialect path) q =
        some (.error a, last)) :
    Account patience s choices (some (reportOf (.error a) last))
  | unending {environment : Settings} {dialect : Dialect} {before after : List Path} {path : Path} {ok : Bool}
      {q : Progress}
      (given : (Settings.ofEnvironment s.environment).value = .ok environment)
      (named : dialect.name = (choices.over environment).language)
      (order : choices.files = before ++ path :: after)
      (done : FilesDone patience (choices.over environment) dialect before s.start ok q)
      (endless : FileEndless patience (choices.over environment) dialect path q) :
    Account patience s choices none

/-- A request to build files is carried out from the surroundings. -/
theorem run?_of_read {s : Surroundings} {arguments : List String} {choices : Choices} {patience : Nat}
    (request : Request.read s.tree arguments = .ok (.build choices)) :
    run? patience s arguments =
      (outcome (build patience s.environment choices)
        { tree := s.tree, input := Text.unifyLineEnds s.input.toList, draws := { all := s.draws } }).map
        fun (result, p) => reportOf result p := by
  rw [run?, request]
  rfl

/-- Every run of the command is accounted for, whatever the files, the settings, the input and the random
numbers are. -/
theorem files_accounted {s : Surroundings} {arguments : List String} {choices : Choices}
    (request : Request.read s.tree arguments = .ok (.build choices)) (patience : Nat) :
    Account patience s choices (run? patience s arguments) := by
  rw [run?_of_read request]
  cases given : (Settings.ofEnvironment s.environment).value with
  | error e =>
    have begun : outcome (build patience s.environment choices)
        { tree := s.tree, input := Text.unifyLineEnds s.input.toList, draws := { all := s.draws } } =
        some (.error (.setting e), s.start) := by
      unfold build
      dsimp only
      rw [given]
      rfl
    rw [begun]
    exact .misconfigured given
  | ok environment =>
    obtain ⟨dialect, named⟩ := exists_dialect request given
    have selected : Dialect.select (some (choices.over environment).language) = .ok dialect := by
      rw [← named]
      exact select_name dialect
    have begun : outcome (build patience s.environment choices)
        { tree := s.tree, input := Text.unifyLineEnds s.input.toList, draws := { all := s.draws } } =
        outcome (processFiles patience (choices.over environment) dialect choices.files) s.start := by
      unfold build
      dsimp only
      rw [given, orStop, pure_bind, selected]
      rfl
    rw [begun]
    generalize ending : outcome (processFiles patience (choices.over environment) dialect choices.files) s.start
      = result
    have ends := ending ▸ filesEnd_processFiles choices.files s.start
    cases ends with
    | @done ok last all =>
      have finished := Account.finished given named all
      cases ok <;> exact finished
    | stopped order done cause ended => exact .stopped given named order done cause ended
    | unending order done endless => exact .unending given named order done endless

theorem Abort.exitCode_ne_success (a : Abort) : a.exitCode ≠ .success := by
  unfold exitCode
  split <;> decide

/-- The exit code is 0 only if every file was done with and succeeded. -/
theorem Account.allDone_of_success {patience : Nat} {s : Surroundings} {choices : Choices} {report : Report}
    (account : Account patience s choices (some report)) (success : report.exitCode = .success) :
    ∃ environment dialect last, (Settings.ofEnvironment s.environment).value = .ok environment ∧
      FilesDone patience (choices.over environment) dialect choices.files s.start true last := by
  cases account with
  | misconfigured => cases success
  | @finished environment dialect ok last given _ all =>
    cases ok with
    | true => exact ⟨environment, dialect, last, given, all⟩
    | false => cases success
  | stopped => exact absurd success (Abort.exitCode_ne_success _)

def twoFiles (first second : String) : Surroundings where
  tree := ⟨[(["a.x"], .file first.toUTF8), (["b.x"], .file second.toUTF8)]⟩

def listTwo : Choices where
  language := none
  list := true
  listPath := none
  run := false
  trace := false
  tracePath := none
  maxSteps := none
  files := [{ names := ["a.x"] }, { names := ["b.x"] }]

theorem read_listTwo (first second : String) :
    Request.read (twoFiles first second).tree ["-l", "a.x", "b.x"] = .ok (.build listTwo) := by
  cbv

/-- The first of the two files is refused; it is listed, and so is the second one. -/
theorem refusedFile_accounted :
    Request.read (twoFiles "(" "STOP").tree ["-l", "a.x", "b.x"] = .ok (.build listTwo) ∧
    ((run? 10 (twoFiles "(" "STOP") ["-l", "a.x", "b.x"]).map fun report =>
      (report.exitCode, report.tree.entries.map Prod.fst)) =
      some (.buildError, [["a.x"], ["b.x"], ["a.lst"], ["b.lst"]]) ∧
    Account 10 (twoFiles "(" "STOP") listTwo (run? 10 (twoFiles "(" "STOP") ["-l", "a.x", "b.x"]) := by
  have request := read_listTwo "(" "STOP"
  refine ⟨request, ?_, files_accounted request 10⟩
  rw [run?_of_read request]
  decide +kernel

/-- A superscript in the first file keeps the second one from being listed, and the exit code is not that of
a file that failed. -/
theorem superscriptFile_stops : ((run? 10 (twoFiles "²" "STOP") ["-l", "a.x", "b.x"]).map fun report =>
    (report.exitCode, report.tree.entries.map Prod.fst)) = some (.internalError, [["a.x"], ["b.x"]]) := by
  rw [run?_of_read (read_listTwo "²" "STOP")]
  decide +kernel

end WordMachine.Command
