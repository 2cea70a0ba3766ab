import WordMachine.Proofs.Assembly.LastSource
import WordMachine.Proofs.Layout.Sites
import WordMachine.Proofs.Legacy.Complaints
import WordMachine.Proofs.Legacy.Locations
import WordMachine.Proofs.Source.OperandPlaces

/-!
# Where diagnostics point

A source text of either dialect fails in one of two ways: some of its lines cannot be read, or all can and a later pass
finds something wrong with what they say. Either way each diagnostic shows a line of the text and a column of that line,
or the one just after its end, so that a caret can be drawn below the line. Only the diagnostic that says that the
limit is reached shows no place.
-/
namespace WordMachine

open Source

def numbered (source : String) : List (String × Nat) :=
  (Text.lines source).zipIdx 1

def Source.LineReader.unread {L : Type} (parse : LineReader L) (source file : String) : List (String × Nat) :=
  (numbered source).filter fun line => (parse.complaint? file line).isSome

/-- The diagnostic shows a line of the source text, and a column of that line or the one just after its end. -/
def Diagnostic.PointsInto (source file : String) (d : Diagnostic) : Prop :=
  ∃ text number column, (text, number) ∈ numbered source ∧ OnLine text.length column ∧
    d.site = some ⟨file, Int.ofNat number, Int.ofNat column⟩ ∧ d.sourceLine = some text

/-- The site and the line are those of an operand of the source text that refers to the label. -/
inductive ShowsOperand (source file name : String) : Option Site → Option String → Prop
  | intro {text : String} {number : Nat} {line : Line} {s : Statement} {a : AddressOperand}
    (place : (text, number) ∈ numbered source) (read : line.IsRead text file number)
    (present : line.content = some (.statement s)) (operand : s.operand = some (.address a))
    (names : a.target = .label name) (stands : OperandAt text line s a) :
    ShowsOperand source file name (some ⟨file, Int.ofNat number, Int.ofNat a.column⟩) (some text)

/-- What the diagnostics of a source text that failed point out; `stop` is the one without a place. -/
structure PointsOut {L : Type} (parse : LineReader L) (source file : String) (stop : Option Diagnostic)
    (errors : List Diagnostic) : Prop where
  places : ∀ d ∈ errors, d ∈ stop ∨ d.PointsInto source file
  /-- If some lines cannot be read there is one complaint about each of them, and nothing else. -/
  complaints : parse.unread source file ≠ [] →
    errors.map some = (parse.unread source file).map (parse.complaint? file)
  numbers : parse.unread source file ≠ [] →
    errors.map (fun d => d.site.map (·.line)) = (parse.unread source file).map fun line => some (Int.ofNat line.2)
  increasing : (parse.unread source file).Pairwise fun line later => line.2 < later.2
  /-- An undefined label is pointed out where the operand that names it starts. -/
  labels : ∀ d ∈ errors, ∀ name site shown, d.undefinedLabel? = some (name, site, shown) →
    ShowsOperand source file name site shown

/-! ## Lines that cannot be read -/

theorem pairwise_numbered (source : String) : (numbered source).Pairwise fun line later => line.2 < later.2 := by
  rw [← List.pairwise_map (f := Prod.snd) (R := (· < ·)), numbered, List.zipIdx_map_snd]
  exact List.pairwise_lt_range'

/-- What is found for some members of a list is found for those that have it. -/
theorem map_some_filterMap {α β : Type} (f : α → Option β) (xs : List α) :
    (xs.filterMap f).map some = (xs.filter fun x => (f x).isSome).map f := by
  induction xs with
  | nil => rfl
  | cons x xs ih => cases found : f x <;> simp [found, ih]

section

variable {L : Type} {rules : LexicalRules} {parse : LineReader L} {source file : String} {p : ParsedFile L}

/-- Lines that cannot be read are reported in their order. -/
theorem increasing_unread (parse : LineReader L) (source file : String) :
    (parse.unread source file).Pairwise fun line later => line.2 < later.2 :=
  (pairwise_numbered source).filter _

theorem mem_numbered_of_mem_results {outcome : Except LexError (ParsedFile L)}
    (byLines : ReadByLines rules parse source file outcome) (read : outcome = .ok p) {r : LineResult L}
    (member : r ∈ p.results) : (r.text, r.number) ∈ numbered source := by
  rw [numbered, ← byLines.map_results read]
  exact List.mem_map_of_mem member

/-- A complaint shows the line that it is about. -/
theorem exists_complaint (onLine : parse.ComplainsOnLine) {line : String × Nat} (member : line ∈ numbered source)
    {d : Diagnostic} (complained : parse.complaint? file line = some d) : ∃ problem column,
    OnLine line.1.length column ∧
      d = .problem (.malformed problem) (some ⟨file, Int.ofNat line.2, Int.ofNat column⟩) (some line.1) := by
  obtain ⟨text, number⟩ := line
  dsimp only [LineReader.complaint?] at complained
  split at complained
  next reading made =>
    have unbroken := Text.unbroken_of_mem_lines (List.fst_mem_of_mem_zipIdx member)
    exact onLine text file number reading d unbroken made (error?_eq_some_iff.mp complained)
  · cases complained

variable (reads : Reads rules parse) (read : (ParsedFile.read parse source file).value = .ok p)
include reads read

/-- The errors of a file are what its lines are complained about for, in order. -/
theorem errors_eq_complaints : p.errors = (numbered source).filterMap (parse.complaint? file) :=
  have byLines := readByLines reads source file
  byLines.filterMap_results read fun _ member => byLines.error?_results read member

theorem unread_eq_nil_iff : parse.unread source file = [] ↔ p.errors = [] := by
  rw [errors_eq_complaints reads read, LineReader.unread, List.filter_eq_nil_iff, List.filterMap_eq_nil_iff]
  simp

/-- Complaints point out the lines that cannot be read. -/
theorem pointsOut_of_complaints (onLine : parse.ComplainsOnLine) (stop : Option Diagnostic) :
    PointsOut parse source file stop p.errors := by
  have made := errors_eq_complaints reads read
  have complaints : p.errors.map some = (parse.unread source file).map (parse.complaint? file) := by
    rw [made, map_some_filterMap]
    rfl
  constructor
  case places =>
    intro d member
    obtain ⟨line, place, complained⟩ := List.mem_filterMap.mp (made ▸ member)
    obtain ⟨problem, column, inside, rfl⟩ := exists_complaint onLine place complained
    exact Or.inr ⟨line.1, line.2, column, place, inside, rfl, rfl⟩
  case complaints => exact fun _ => complaints
  case numbers =>
    intro _
    have lines : (p.errors.map some).map (fun d : Option Diagnostic => d.bind fun d => d.site.map (·.line)) =
        (parse.unread source file).map fun line => some (Int.ofNat line.2) := by
      rw [complaints, List.map_map]
      refine List.map_congr_left fun line member => ?_
      obtain ⟨place, found⟩ := List.mem_filter.mp member
      obtain ⟨d, complained⟩ := Option.isSome_iff_exists.mp found
      obtain ⟨problem, column, -, rfl⟩ := exists_complaint onLine place complained
      simp [complained, Diagnostic.site]
    rwa [List.map_map] at lines
  case increasing => exact increasing_unread parse source file
  case labels =>
    intro d member name site shown undefined
    obtain ⟨line, place, complained⟩ := List.mem_filterMap.mp (made ▸ member)
    obtain ⟨problem, column, -, rfl⟩ := exists_complaint onLine place complained
    cases undefined

end

/-! ## Lines of the symbolic dialect -/

/-- A statement that refers to a label has an operand that names it. The operand that a routine implies names none. -/
theorem operand_of_symbol? {line : Line} {s : Statement} {name : String} (admitted : line.Admitted)
    (present : line.content = some (.statement s)) (symbol : s.symbol? = some name) :
    ∃ a, s.operand = some (.address a) ∧ a.target = .label name ∧ s.routine = none := by
  unfold Statement.symbol? at symbol
  split at symbol
  next operand =>
    cases symbol
    refine ⟨_, operand, rfl, Option.eq_none_iff_forall_ne_some.mpr fun r called => ?_⟩
    have implied := ((admitted _ present).2 r called).2
    rw [operand] at implied
    cases implied
  · cases symbol

section

variable {source file : String} {parsed : ParsedFile Line} (read : (parseSource source file).value = .ok parsed)
include read

/-- A line of a file was read from one of the lines of the text. -/
theorem exists_isRead_of_mem_lines {line : Line} (member : line ∈ parsed.lines) :
    ∃ text number, (text, number) ∈ numbered source ∧ line.IsRead text file (number : Nat) := by
  obtain ⟨r, result, present⟩ := List.mem_filterMap.mp member
  have byLines := parseSource_byLines source file
  obtain ⟨reading, made, same⟩ := byLines.alone parsed read r result
  refine ⟨r.text, r.number, mem_numbered_of_mem_results byLines read result, ?_⟩
  unfold LineResult.line? at present
  rw [same] at present
  cases value : reading.value with
  | error d =>
    rw [value] at present
    cases present
  | ok found =>
    obtain ⟨l, isRead, rfl⟩ := isRead_of_symbolicReader made value
    rw [value] at present
    cases present
    exact isRead

/-- What concerns a line of the text points into it, and at the operand that names an undefined label. -/
theorem pointsInto_of_concerns {line : Line} (member : line ∈ parsed.lines) {d : Diagnostic}
    (concerns : d.Concerns line) : d.PointsInto source file ∧ ∀ name site shown,
      d.undefinedLabel? = some (name, site, shown) → ShowsOperand source file name site shown := by
  obtain ⟨text, number, place, isRead⟩ := exists_isRead_of_mem_lines read member
  have unbroken : Text.Unbroken text.toList := Text.unbroken_of_mem_lines (List.fst_mem_of_mem_zipIdx place)
  obtain ⟨tokens, scan, made⟩ := (isRead_iff unbroken).mp isRead
  have scanned : Token.ofLine symbolicRules text = .ok tokens := by
    rw [Token.ofLine, if_neg (by simpa using single_of_unbroken unbroken), scan]
  obtain ⟨same_text, same_number, same_file⟩ := Line.ofTokens_ok made
  have sites : ∀ column, line.site column = ⟨file, Int.ofNat number, Int.ofNat (max column 1)⟩ := by
    intro column
    rw [Line.site, same_number, same_file]
    simp
  cases concerns with
  | line other =>
    refine ⟨⟨text, number, 1, place, onLine_one _, congrArg some (sites 1), congrArg some same_text⟩, ?_⟩
    intro name site shown undefined
    obtain ⟨label, named, -⟩ := Option.map_eq_some_iff.mp undefined
    rw [other] at named
    cases named
  | @operand cause s present symbol =>
    -- the operand that a routine implies has no column, and the site shows the first one for it
    have bound := column_of_ofTokens scanned made present
    constructor
    · exact ⟨text, number, max (Encoding.column s.operand) 1, place, ⟨by omega, by omega⟩,
        congrArg some (sites _), congrArg some same_text⟩
    · intro name site shown undefined
      obtain ⟨_, named, same⟩ := Option.map_eq_some_iff.mp undefined
      cases same
      obtain ⟨a, operand, names, own⟩ := operand_of_symbol?
        (isParsed_of_parseSource read line member).admitted present (symbol name named)
      have stands := operandAt_of_ofTokens scanned made present operand own
      obtain ⟨before, after, start, -⟩ := stands.shown name names
      have column : max (Encoding.column s.operand) 1 = a.column := by
        rw [operand]
        show max a.column 1 = a.column
        omega
      rw [sites, column, same_text]
      exact .intro place isRead present operand names stands

end

/-! ## Both dialects -/

/-- If all lines can be read there is nothing to say about complaints. -/
theorem pointsOut_of_whole {L : Type} {parse : LineReader L} {source file : String} {stop : Option Diagnostic}
    {errors : List Diagnostic} (whole : parse.unread source file = [])
    (places : ∀ d ∈ errors, d ∈ stop ∨ d.PointsInto source file)
    (labels : ∀ d ∈ errors, ∀ name site shown, d.undefinedLabel? = some (name, site, shown) →
      ShowsOperand source file name site shown) : PointsOut parse source file stop errors where
  places := places
  complaints unread := absurd whole unread
  numbers unread := absurd whole unread
  increasing := increasing_unread parse source file
  labels := labels

theorem pointsOut_of_assemble {asm : Assembler} {source file : String} {failure : AssemblyFailure}
    (failed : (asm.assemble source file).value.2 = .error (.failed failure)) :
    PointsOut symbolicReader source file (some (.problem (.limitReached asm.settings.maxErrors) none none))
      failure.errors := by
  unfold Assembler.assemble at failed
  simp only [Warned.map] at failed
  split at failed
  · cases failed
  next parsed read =>
    split at failed
    next whole =>
      split at failed
      · dsimp only at failed
        split at failed <;> cases failed
      next errors stopped =>
        cases failed
        have unread := (unread_eq_nil_iff symbolic_reads read).mpr (List.isEmpty_iff.mp whole)
        have concerns := concerns_of_generate_error stopped
        refine pointsOut_of_whole unread (fun d member => ?_) fun d member name site shown undefined => ?_
        · rcases concerns d member with rfl | ⟨line, place, about⟩
          · exact Or.inl rfl
          · exact Or.inr (pointsInto_of_concerns read place about).1
        · rcases concerns d member with rfl | ⟨line, place, about⟩
          · cases undefined
          · exact (pointsInto_of_concerns read place about).2 name site shown undefined
      · cases failed
    · cases failed
      exact pointsOut_of_complaints symbolic_reads read symbolic_complainsOnLine _

namespace Legacy

/-- The report of a line that repeats a location points to its first column. -/
theorem pointsInto_of_repeated {source file : String} {parsed : ParsedFile Line}
    (read : (parseSource source file).value = .ok parsed) (whole : parsed.ok = true) {line first : Line}
    (member : (line, first) ∈ repeats parsed.lines) : (repeated line first).PointsInto source file := by
  have place := (mem_of_mem_repeats member).1
  have shown : (line.number, line.text) ∈ written source :=
    written_of_parseSource read whole ▸ List.mem_map_of_mem (f := fun line => (line.number, line.text)) place
  obtain ⟨⟨text, number⟩, here, found⟩ := List.mem_filterMap.mp shown
  dsimp only at found
  split at found
  · cases found
  · obtain ⟨same_number, same_text⟩ := Prod.mk.inj (Option.some.inj found)
    have site : line.site = ⟨file, Int.ofNat number, Int.ofNat 1⟩ := by
      rw [Line.site, file_of_parseSource read whole place, ← same_number]
      rfl
    exact ⟨text, number, 1, here, onLine_one _, congrArg some site, congrArg some same_text.symm⟩

theorem pointsOut_of_assemble {checker : Checker} {source file : String} {failure : AssemblyFailure}
    (failed : (checker.assemble source file).value.2 = .error (.failed failure)) :
    PointsOut Line.parse source file none failure.errors := by
  unfold Checker.assemble at failed
  simp only [Warned.map] at failed
  split at failed
  · cases failed
  next parsed read =>
    obtain ⟨errors, stopped, made⟩ := mapError_eq_error_iff.mp failed
    cases made
    split at stopped
    next whole =>
      have clash : ¬ (parsed.lines.map (·.location)).Nodup := by
        intro distinct
        rw [ofLines_of_distinct distinct] at stopped
        cases stopped
      rw [ofLines_of_repeats clash] at stopped
      cases stopped
      have unread := (unread_eq_nil_iff legacy_reads read).mpr (List.isEmpty_iff.mp whole)
      refine pointsOut_of_whole unread (fun d member => ?_) fun d member name site shown undefined => ?_
      · obtain ⟨⟨line, first⟩, repeats, rfl⟩ := List.mem_map.mp member
        exact Or.inr (pointsInto_of_repeated read whole repeats)
      · obtain ⟨_, -, rfl⟩ := List.mem_map.mp member
        cases undefined
    · cases stopped
      exact pointsOut_of_complaints legacy_reads read complainsOnLine _

end Legacy

/-- Each diagnostic of a source text that fails shows a line of the text and a column of it, in either dialect: if
lines cannot be read there is one for each of these lines, in order, and an undefined label is shown where the operand
starts that refers to it. -/
theorem diagnostics_point_into_source (asm : Assembler) (checker : Legacy.Checker) (source file : String) :
    (∀ failure, (asm.assemble source file).value.2 = .error (.failed failure) →
      PointsOut symbolicReader source file (some (.problem (.limitReached asm.settings.maxErrors) none none))
        failure.errors) ∧
    ∀ failure, (checker.assemble source file).value.2 = .error (.failed failure) →
      PointsOut Legacy.Line.parse source file none failure.errors :=
  ⟨fun _ failed => pointsOut_of_assemble failed, fun _ failed => Legacy.pointsOut_of_assemble failed⟩

def failureSites? {α : Type} : Except Refusal α → Option (List (Option Site))
  | .error (.failed failure) => some (failure.errors.map (·.site))
  | _ => none

theorem exists_failure {α : Type} {result : Except Refusal α} {sites : List (Option Site)}
    (found : failureSites? result = some sites) :
    ∃ failure, result = .error (.failed failure) ∧ failure.errors.map (·.site) = sites := by
  unfold failureSites? at found
  split at found
  next failure => exact ⟨failure, rfl, Option.some.inj found⟩
  · cases found

/-- A jump through a label that is not there, and a label that is there twice. -/
theorem jumps_point_into_source :
    (∃ failure, ((Assembler.new {}).assemble "A: JUMP 2, *B\nA:" "jumps").value.2 = .error (.failed failure) ∧
      failure.errors.map (·.site) = [some ⟨"jumps", 2, 1⟩, some ⟨"jumps", 1, 12⟩] ∧
      PointsOut symbolicReader "A: JUMP 2, *B\nA:" "jumps" (some (.problem (.limitReached 100) none none))
        failure.errors) ∧
    ∃ failure, (Legacy.Checker.assemble {} "JUMP A\n8 STOP\n9 TAKE <A" "lines").value.2 =
        .error (.failed failure) ∧
      failure.errors.map (·.site) = [some ⟨"lines", 1, 1⟩, some ⟨"lines", 3, 8⟩] ∧
      PointsOut Legacy.Line.parse "JUMP A\n8 STOP\n9 TAKE <A" "lines" none failure.errors := by
  have jumps : failureSites? ((Assembler.new {}).assemble "A: JUMP 2, *B\nA:" "jumps").value.2 =
      some [some ⟨"jumps", 2, 1⟩, some ⟨"jumps", 1, 12⟩] := by
    decide +kernel
  have lines : failureSites? (Legacy.Checker.assemble {} "JUMP A\n8 STOP\n9 TAKE <A" "lines").value.2 =
      some [some ⟨"lines", 1, 1⟩, some ⟨"lines", 3, 8⟩] := by
    decide +kernel
  obtain ⟨failure, failed, sites⟩ := exists_failure jumps
  obtain ⟨refused, unread, places⟩ := exists_failure lines
  exact ⟨⟨failure, failed, sites, (diagnostics_point_into_source (.new {}) {} _ _).1 failure failed⟩,
    refused, unread, places, (diagnostics_point_into_source (.new {}) {} _ _).2 refused unread⟩

end WordMachine
