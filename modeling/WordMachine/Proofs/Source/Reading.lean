import WordMachine.Legacy.LineParser
import WordMachine.Proofs.Source.Parsed
import WordMachine.Proofs.Source.Scanning

/-!
# Source texts read line by line

Either dialect gives one result for each line of a source text, in order, and what it has to complain about
a line stands in the result of that line. A file has no results at all if a scanner is stuck in one of its
lines (`Token.Stuck`), and only then; the digits it is stuck at may even stand in a comment that has no mark
(`superscript_is_stuck`).
-/
namespace WordMachine.Source

/-- Reads one line: its text, the file and its number. -/
abbrev LineReader (L : Type) :=
  String → String → Int → Except LexError (Warned (Except Diagnostic (Option L)))

/-- The reader of the symbolic dialect. It has no blank lines. -/
def symbolicReader : LineReader Line := fun text file number =>
  (Line.parse text file number).map (·.map (·.map some))

def ComplainsAt (text file : String) (number : Int) (d : Diagnostic) : Prop :=
  ∃ problem column, d = .problem (.malformed problem) (some ⟨file, number, column⟩) (some text)

/-- What a reader does with a line that a line end separates from the others. -/
structure Reads {L : Type} (rules : LexicalRules) (parse : LineReader L) : Prop where
  refuses : ∀ text file number, Text.Unbroken text.toList →
    ((∃ e, parse text file number = .error e) ↔ Token.Stuck rules text.toList)
  complains : ∀ text file number reading d, Text.Unbroken text.toList →
    parse text file number = .ok reading → reading.value = .error d → ComplainsAt text file number d

/-- What becomes of a source text that is read line by line. -/
structure ReadByLines {L : Type} (rules : LexicalRules) (parse : LineReader L) (source file : String)
    (outcome : Except LexError (ParsedFile L)) : Prop where
  /-- The results are numbered from one and have the texts of the lines. -/
  numbers : ∀ p, outcome = .ok p → p.results.map (·.number) = List.range' 1 (Text.lines source).length
  texts : ∀ p, outcome = .ok p → p.results.map (·.text) = Text.lines source
  /-- A line is read as it would be without the others. -/
  alone : ∀ p, outcome = .ok p → ∀ r ∈ p.results, ∃ reading,
    parse r.text file r.number = .ok reading ∧ r.outcome = reading.value
  complaints : ∀ p, outcome = .ok p → ∀ r ∈ p.results, ∀ d, r.outcome = .error d →
    ComplainsAt r.text file r.number d
  /-- There is nothing but a numeral without a value to keep a file from being read. -/
  unread_iff : (∃ e, outcome = .error e) ↔ ∃ line ∈ Text.lines source, Token.Stuck rules line.toList
  /-- The error is about the first line with such a numeral. -/
  first : ∀ e, outcome = .error e → ∃ before line after, Text.lines source = before ++ line :: after ∧
    (∀ earlier ∈ before, ¬ Token.Stuck rules earlier.toList) ∧
    parse line file (before.length + 1) = .error e
  read : Text.DigitsReadable source.toList → ∃ p, outcome = .ok p

/-! ## The lines of a file -/

section

variable {L : Type} {parse : LineReader L} {file : String} {number : Nat} {texts : List String}

theorem readFrom_of_error {text : String} {rest : List String} {e : LexError}
    (refused : parse text file number = .error e) :
    (ParsedFile.readFrom parse file number (text :: rest)).value = .error e := by
  rw [ParsedFile.readFrom, refused]

theorem readFrom_of_ok {text : String} {rest : List String} {reading : Warned (Except Diagnostic (Option L))}
    (read : parse text file number = .ok reading) :
    (ParsedFile.readFrom parse file number (text :: rest)).value =
      (⟨number, text, reading.value⟩ :: ·) <$> (ParsedFile.readFrom parse file (number + 1) rest).value := by
  rw [ParsedFile.readFrom, read]

/-- One result for each line. -/
theorem readFrom_ok {results : List (LineResult L)}
    (read : (ParsedFile.readFrom parse file number texts).value = .ok results) :
    results.map (·.number) = List.range' number texts.length ∧ results.map (·.text) = texts ∧
    ∀ r ∈ results, ∃ reading, parse r.text file r.number = .ok reading ∧ r.outcome = reading.value := by
  induction texts generalizing number results with
  | nil =>
    cases read
    simp
  | cons text rest ih =>
    cases here : parse text file number with
    | error e =>
      rw [readFrom_of_error here] at read
      cases read
    | ok reading =>
      rw [readFrom_of_ok here] at read
      obtain ⟨others, later, rfl⟩ := map_eq_ok_iff.mp read
      obtain ⟨numbers, same, alone⟩ := ih later
      refine ⟨by simp [numbers, List.range'_succ], by simp [same], fun r member => ?_⟩
      rcases List.mem_cons.mp member with rfl | other
      · exact ⟨reading, here, rfl⟩
      · exact alone r other

/-- A file is refused for the first of its lines that is refused. -/
theorem readFrom_eq_error_iff {e : LexError} :
    (ParsedFile.readFrom parse file number texts).value = .error e ↔
      ∃ before line after, texts = before ++ line :: after ∧
        (∀ i (low : i < before.length), ∃ reading, parse before[i] file (number + i : Nat) = .ok reading) ∧
        parse line file (number + before.length : Nat) = .error e := by
  induction texts generalizing number with
  | nil => simp [ParsedFile.readFrom]
  | cons text rest ih =>
    cases here : parse text file number with
    | error other =>
      rw [readFrom_of_error here]
      constructor
      · rintro ⟨⟩
        exact ⟨[], text, rest, rfl, fun i low => absurd low (Nat.not_lt_zero i), here⟩
      · rintro ⟨_ | ⟨_, before⟩, line, after, split, fine, refused⟩
        · cases split
          cases here.symm.trans refused
          rfl
        · cases split
          obtain ⟨reading, read⟩ := fine 0 (by simp)
          exact absurd (here.symm.trans read) (by simp)
    | ok reading =>
      have shift : ∀ i, number + 1 + i = number + (i + 1) := fun i => by omega
      rw [readFrom_of_ok here, map_eq_error_iff, ih]
      constructor
      · rintro ⟨before, line, after, rfl, fine, refused⟩
        refine ⟨text :: before, line, after, rfl, fun i low => ?_, ?_⟩
        · cases i with
          | zero => exact ⟨reading, here⟩
          | succ i => exact shift i ▸ fine i (by simpa using low)
        · exact shift before.length ▸ refused
      · rintro ⟨_ | ⟨_, before⟩, line, after, split, fine, refused⟩
        · cases split
          exact absurd (here.symm.trans refused) (by simp)
        · cases split
          refine ⟨before, line, after, rfl, fun i low => ?_, shift before.length ▸ refused⟩
          exact shift i ▸ fine (i + 1) (by simpa using low)

end

/-- Both dialects read a file as their readers read its lines. -/
theorem readByLines {L : Type} {rules : LexicalRules} {parse : LineReader L} (reads : Reads rules parse)
    (source file : String) : ReadByLines rules parse source file (ParsedFile.read parse source file).value := by
  have opened : ∀ p, (ParsedFile.read parse source file).value = .ok p →
      (ParsedFile.readFrom parse file 1 (Text.lines source)).value = .ok p.results := by
    intro p read
    obtain ⟨results, found, rfl⟩ := map_eq_ok_iff.mp read
    exact found
  have stuck_iff : ∀ line ∈ Text.lines source, ∀ number,
      ((∃ e, parse line file number = .error e) ↔ Token.Stuck rules line.toList) :=
    fun line member number => reads.refuses line file number (Text.unbroken_of_mem_lines member)
  have unstuck : ∀ line ∈ Text.lines source, ∀ number reading, parse line file number = .ok reading →
      ¬ Token.Stuck rules line.toList := by
    intro line member number reading read stuck
    obtain ⟨e, refused⟩ := (stuck_iff line member number).mpr stuck
    rw [refused] at read
    cases read
  have first : ∀ e, (ParsedFile.read parse source file).value = .error e → ∃ before line after,
      Text.lines source = before ++ line :: after ∧ (∀ earlier ∈ before, ¬ Token.Stuck rules earlier.toList) ∧
      parse line file (before.length + 1) = .error e := by
    intro e refused
    obtain ⟨before, line, after, split, fine, here⟩ := readFrom_eq_error_iff.mp (map_eq_error_iff.mp refused)
    refine ⟨before, line, after, split, fun earlier member => ?_, ?_⟩
    · obtain ⟨i, low, rfl⟩ := List.getElem_of_mem member
      obtain ⟨reading, read⟩ := fine i low
      exact unstuck _ (by simp [split]) _ reading read
    · rwa [Nat.add_comm, Nat.cast_add, Nat.cast_one] at here
  have unread_iff : (∃ e, (ParsedFile.read parse source file).value = .error e) ↔
      ∃ line ∈ Text.lines source, Token.Stuck rules line.toList := by
    constructor
    · rintro ⟨e, refused⟩
      obtain ⟨before, line, after, split, -, here⟩ := first e refused
      have member : line ∈ Text.lines source := by simp [split]
      exact ⟨line, member, (stuck_iff line member _).mp ⟨e, here⟩⟩
    · rintro ⟨line, member, stuck⟩
      cases outcome : (ParsedFile.read parse source file).value with
      | error e => exact ⟨e, rfl⟩
      | ok p =>
        obtain ⟨-, texts, alone⟩ := readFrom_ok (opened p outcome)
        obtain ⟨r, result, rfl⟩ := List.mem_map.mp (texts ▸ member)
        obtain ⟨reading, read, -⟩ := alone r result
        exact absurd stuck (unstuck _ member _ reading read)
  constructor
  case numbers => exact fun p read => (readFrom_ok (opened p read)).1
  case texts => exact fun p read => (readFrom_ok (opened p read)).2.1
  case alone => exact fun p read => (readFrom_ok (opened p read)).2.2
  case complaints =>
    intro p read r member d complained
    obtain ⟨-, texts, alone⟩ := readFrom_ok (opened p read)
    obtain ⟨reading, found, same⟩ := alone r member
    have line : r.text ∈ Text.lines source := texts ▸ List.mem_map_of_mem member
    exact reads.complains r.text file r.number reading d (Text.unbroken_of_mem_lines line) found
      (same.symm.trans complained)
  case unread_iff => exact unread_iff
  case first => exact first
  case read =>
    intro readable
    cases outcome : (ParsedFile.read parse source file).value with
    | ok p => exact ⟨p, rfl⟩
    | error e =>
      obtain ⟨line, member, stuck⟩ := unread_iff.mp ⟨e, outcome⟩
      exact absurd stuck (Token.not_stuck (readable.of_infix (Text.infix_of_mem_lines member)))

/-- The results are about the lines of the text, numbered from one. -/
theorem ReadByLines.map_results {L : Type} {rules : LexicalRules} {parse : LineReader L} {source file : String}
    {outcome : Except LexError (ParsedFile L)} (byLines : ReadByLines rules parse source file outcome)
    {p : ParsedFile L} (read : outcome = .ok p) :
    p.results.map (fun r => (r.text, r.number)) = (Text.lines source).zipIdx 1 := by
  rw [List.zipIdx_eq_zip_range', ← byLines.texts p read, List.length_map]
  refine List.zip_of_prod ?_ ?_
  · rw [List.map_map]
    rfl
  · rw [List.map_map, ← List.length_map (f := fun r : LineResult L => r.text), byLines.texts p read,
      ← byLines.numbers p read]
    rfl

def LineReader.complaint? {L : Type} (parse : LineReader L) (file : String) : String × Nat → Option Diagnostic
  | (text, number) =>
    match parse text file number with
    | .ok reading => error? reading.value
    | .error _ => none

/-- The complaint about a line stands in its result. -/
theorem ReadByLines.error?_results {L : Type} {rules : LexicalRules} {parse : LineReader L} {source file : String}
    {outcome : Except LexError (ParsedFile L)} (byLines : ReadByLines rules parse source file outcome)
    {p : ParsedFile L} (read : outcome = .ok p) {r : LineResult L} (member : r ∈ p.results) :
    r.error? = parse.complaint? file (r.text, r.number) := by
  obtain ⟨reading, made, same⟩ := byLines.alone p read r member
  simp only [LineReader.complaint?, made, LineResult.error?, same]
  cases reading.value <;> rfl

/-- What is read off some of the results is what is read off the lines that they are about. -/
theorem ReadByLines.filterMap_results {L β : Type} {rules : LexicalRules} {parse : LineReader L}
    {source file : String} {outcome : Except LexError (ParsedFile L)}
    (byLines : ReadByLines rules parse source file outcome) {p : ParsedFile L} (read : outcome = .ok p)
    {ofResult : LineResult L → Option β} {ofLine : String × Nat → Option β}
    (agree : ∀ r ∈ p.results, ofResult r = ofLine (r.text, r.number)) :
    p.results.filterMap ofResult = ((Text.lines source).zipIdx 1).filterMap ofLine := by
  rw [← byLines.map_results read, List.filterMap_map]
  exact List.filterMap_congr agree

/-! ## The two dialects -/

theorem single_of_unbroken {cs : List Char} (unbroken : Text.Unbroken cs) : '\n' ∉ cs := by
  intro member
  cases unbroken '\n' member

/-- On one line the symbolic reader scans and then parses. -/
theorem symbolicReader_eq {text : String} (unbroken : Text.Unbroken text.toList) (file : String) (number : Int) :
    symbolicReader text file number =
      (fun tokens => (Line.ofTokens tokens text file number).map (·.map some)) <$>
        Token.ofLine symbolicRules text := by
  unfold symbolicReader Line.parse
  dsimp only
  rw [dropReturns_of_unbroken unbroken]
  cases Token.ofLine symbolicRules text <;> rfl

/-- On one line the legacy reader scans and then parses. -/
theorem legacyParse_eq {text : String} (unbroken : Text.Unbroken text.toList) (file : String) (number : Int) :
    Legacy.Line.parse text file number =
      (fun tokens => ⟨Legacy.Line.ofTokens tokens text file number, []⟩) <$> Token.ofLine legacyRules text := by
  unfold Legacy.Line.parse
  dsimp only
  rw [dropReturns_of_unbroken unbroken]
  cases Token.ofLine legacyRules text <;> rfl

theorem symbolic_reads : Reads symbolicRules symbolicReader where
  refuses text file number unbroken := by
    rw [← Token.exists_ofLine_error_iff Token.symbolicRules_apart (single_of_unbroken unbroken),
      symbolicReader_eq unbroken]
    simp only [map_eq_error_iff]
  complains text file number reading d unbroken read complained := by
    rw [symbolicReader_eq unbroken] at read
    obtain ⟨tokens, -, rfl⟩ := map_eq_ok_iff.mp read
    have refused : (Line.ofTokens tokens text file number).value = .error d := map_eq_error_iff.mp complained
    obtain ⟨complaint, -, rfl⟩ := mapError_eq_error_iff.mp refused
    exact ⟨complaint.problem, complaint.column, rfl⟩

theorem legacy_reads : Reads legacyRules Legacy.Line.parse where
  refuses text file number unbroken := by
    rw [← Token.exists_ofLine_error_iff Token.legacyRules_apart (single_of_unbroken unbroken),
      legacyParse_eq unbroken]
    simp only [map_eq_error_iff]
  complains text file number reading d unbroken read complained := by
    rw [legacyParse_eq unbroken] at read
    obtain ⟨tokens, -, rfl⟩ := map_eq_ok_iff.mp read
    unfold Legacy.Line.ofTokens at complained
    split at complained
    · cases complained
    · split at complained
      next complaint _ =>
        cases complained
        exact ⟨complaint.problem, complaint.column, rfl⟩
      · cases complained

/-- Every source text is read by lines in both dialects. -/
theorem sources_read_by_lines (source file : String) :
    ReadByLines symbolicRules symbolicReader source file (parseSource source file).value ∧
    ReadByLines legacyRules Legacy.Line.parse source file (Legacy.parseSource source file).value :=
  ⟨readByLines symbolic_reads source file, readByLines legacy_reads source file⟩

/-- A superscript digit keeps a file of either dialect from being read: in one as a word, in the other even
in the comment after a word. -/
theorem superscript_is_stuck :
    (parseSource "+1\n²\n+3" "squares").value = .error (.integer (.valueless "²")) ∧
    (Legacy.parseSource "8 STOP\n9 STOP m²" "squares").value = .error (.integer (.valueless "²")) :=
  ⟨error?_eq_some_iff.mp (by decide +kernel), error?_eq_some_iff.mp (by decide +kernel)⟩

end WordMachine.Source
