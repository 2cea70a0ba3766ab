import WordMachine.Proofs.Charset.Codes
import WordMachine.Proofs.Source.Constant
import WordMachine.Proofs.Text.Lines
import WordMachine.Source.LineParser

/-!
# What the parser admits

Every constant of a line that the parser produced is held by some word, and a statement named by a library
routine calls that routine.
-/
namespace WordMachine

namespace Source

theorem dropReturns_eq_self {text : String} (absent : '\r' ∉ text.toList) : dropReturns text = text := by
  have kept : text.toList.reverse.dropWhile (· == '\r') = text.toList.reverse := by
    rw [List.dropWhile_eq_self_iff]
    intro low
    rw [beq_iff_eq]
    intro last
    exact absent (List.mem_reverse.mp (last ▸ List.getElem_mem low))
  rw [dropReturns, kept, List.reverse_reverse, String.ofList_toList]

theorem dropReturns_of_unbroken {text : String} (unbroken : Text.Unbroken text.toList) :
    dropReturns text = text := by
  apply dropReturns_eq_self
  intro member
  have ends := unbroken '\r' member
  simp [Text.endsLine] at ends

/-- The constants of a word fit, and the name of a routine stands for its call. -/
def Content.Admitted : Content → Prop
  | .constant c => c.Fits
  | .statement s =>
    (∀ c column, s.operand = some (.constant c column) → c.Fits) ∧
    ∀ r, s.routine = some r → s.mnemonic = .extra ∧
      s.operand = some (.address ⟨.location r.number, none, false, 0⟩)

def Line.Admitted (line : Line) : Prop :=
  ∀ c, line.content = some c → c.Admitted

/-- A line that the parser produced from some text. -/
def Line.IsParsed (line : Line) : Prop :=
  ∃ text file number warnings, Line.parse text file number = .ok ⟨.ok line, warnings⟩

/-- A text without carriage returns at its end is read as what its tokens make. -/
theorem Line.parse_of_tokens {text : String} {tokens : List Token} (absent : '\r' ∉ text.toList)
    (read : Token.ofLine symbolicRules text = .ok tokens) (file : String) (number : Int) :
    Line.parse text file number = .ok (Line.ofTokens tokens text file number) := by
  simp [Line.parse, dropReturns_eq_self absent, read, bind, Except.bind, pure, Except.pure]

/-! ## Constants -/

theorem numberConstant_fits {value : Numeric.Number} {column : Nat} {c : Constant}
    (read : numberConstant value column = .ok c) : c.Fits := by
  obtain ⟨number, fitted, rfl⟩ := map_eq_ok_iff.mp read
  unfold fitting at fitted
  split at fitted
  · cases fitted
  next w made =>
    cases fitted
    refine ⟨w, ?_⟩
    cases value <;> exact made

theorem textConstant_fits {content : String} {column : Nat} {c : Constant}
    (read : textConstant content column = .ok c) : c.Fits := by
  unfold textConstant at read
  dsimp only at read
  split at read
  · cases read
  next length =>
    split at read
    · cases read
    next supported =>
      cases read
      have all : ∀ d ∈ content.toList, Charset.supports d = true := by
        simpa using List.find?_eq_none.mp supported
      have short : ¬ Charset.charsPerWord < content.toList.length := by
        rw [String.length_toList]
        exact fun long => length (Or.inr long)
      refine ⟨⟨.text, Charset.pack content.toList⟩, ?_⟩
      simp only [Constant.word, Word.ofText, Word.packText, if_neg short,
        Charset.unsupported?_eq_none all]
      rfl

/-! ## Statements -/

theorem operand_fits {tokens rest : List Token} {c : Constant} {column : Nat}
    (read : LineParser.operand tokens = .ok (some (.constant c column), rest)) : c.Fits := by
  unfold LineParser.operand at read
  dsimp only at read
  split at read
  · cases read
  · cases read
  · obtain ⟨value, made, finished⟩ := bind_eq_ok_iff.mp read
    cases finished
    exact textConstant_fits made
  · cases read
  · split at read
    · obtain ⟨value, made, finished⟩ := bind_eq_ok_iff.mp read
      cases finished
      exact numberConstant_fits made
    · obtain ⟨a, -, finished⟩ := bind_eq_ok_iff.mp read
      cases finished

/-- Only calls have a routine. -/
theorem mnemonic_eq_extra_of_lookup {name : String} {entry : Vocabulary.Entry} {r : Routine}
    (found : Vocabulary.lookup? name = some entry) (routine : entry.routine = some r) :
    entry.mnemonic = .extra := by
  obtain ⟨before, after, split, -⟩ := List.lookup_eq_some_iff.mp found
  have member : (Text.capitalised name, entry) ∈ Vocabulary.entries := by simp [split]
  simp only [Vocabulary.entries, List.mem_append, List.mem_map, Prod.mk.injEq] at member
  rcases member with (⟨m, -, -, rfl⟩ | ⟨m, -, -, rfl⟩) | ⟨s, -, -, rfl⟩
  · cases routine
  · cases routine
  · rfl

/-- The routine of a statement is called by its number. -/
theorem statement_admitted {name : String} {tokens rest : List Token} {s : Statement}
    (read : LineParser.statement name tokens = .ok (s, rest)) : (Content.statement s).Admitted := by
  unfold LineParser.statement at read
  split at read
  · cases read
  next entry found =>
    obtain ⟨⟨operand, left⟩, parsed, read⟩ := bind_eq_ok_iff.mp read
    dsimp only at read
    split at read
    · cases read
    next routine named =>
      cases read
      constructor
      · intro c column constant
        cases constant
      · intro r called
        cases called
        exact ⟨mnemonic_eq_extra_of_lookup found named, rfl⟩
    · split at read
      · cases read
        constructor
        · intro c column constant
          cases constant
          exact operand_fits parsed
        · intro r called
          cases called
      · cases read
    next nameless address =>
      cases read
      constructor
      · intro c column constant
        dsimp only at constant
        subst constant
        exact operand_fits parsed
      · intro r called
        cases called

theorem unexpected_ne_ok {α : Type} {rules : LexicalRules} {tokens : List Token} {wanted : String} {a : α} :
    unexpected rules tokens wanted ≠ .ok a := by
  unfold unexpected complain
  dsimp only
  split <;> exact nofun

/-- No word is read that would not fit. -/
theorem content_admitted {tokens rest : List Token} {c : Content}
    (read : LineParser.content tokens = .ok (some c, rest)) : c.Admitted := by
  unfold LineParser.content at read
  dsimp only at read
  split at read
  · cases read
  · cases read
  · obtain ⟨⟨s, left⟩, parsed, finished⟩ := bind_eq_ok_iff.mp read
    cases finished
    exact statement_admitted parsed
  · obtain ⟨value, made, finished⟩ := map_eq_ok_iff.mp read
    cases finished
    exact numberConstant_fits made
  · obtain ⟨value, made, finished⟩ := map_eq_ok_iff.mp read
    cases finished
    exact numberConstant_fits made
  · obtain ⟨value, made, finished⟩ := map_eq_ok_iff.mp read
    cases finished
    exact textConstant_fits made
  · split at read
    · obtain ⟨value, made, finished⟩ := bind_eq_ok_iff.mp read
      cases finished
      exact numberConstant_fits made
    · exact absurd read unexpected_ne_ok

/-- Whatever the parser lets through has a word that fits. -/
theorem Line.IsParsed.admitted {line : Line} (parsed : line.IsParsed) : line.Admitted := by
  obtain ⟨text, file, number, warnings, read⟩ := parsed
  obtain ⟨tokens, -, made⟩ := bind_eq_ok_iff.mp read
  obtain ⟨made, -⟩ := Warned.mk.inj (Except.ok.inj made)
  obtain ⟨⟨content, rest⟩, parsed, made⟩ := bind_eq_ok_iff.mp (mapError_eq_ok_iff.mp made)
  obtain ⟨comment, -, made⟩ := bind_eq_ok_iff.mp made
  cases made
  intro c present
  dsimp only at present
  subst present
  exact content_admitted parsed

/-- A line that is the result of the parser for some text. -/
theorem Line.isParsed_of_parse {text file : String} {number : Int} {line : Line}
    (read : ((Line.parse text file number).toOption.bind fun w => w.value.toOption) = some line) :
    line.IsParsed := by
  cases result : Line.parse text file number with
  | error e => simp [result, Except.toOption] at read
  | ok reading =>
    obtain ⟨value, warnings⟩ := reading
    cases value with
    | error d => simp [result, Except.toOption] at read
    | ok same =>
      simp only [result, Except.toOption, Option.bind_some, Option.some.injEq] at read
      exact ⟨text, file, number, warnings, read ▸ result⟩

/-! ## Files -/

/-- Wherever it stands in the file, the text is read without a remark as a line of some kind. -/
def ReadAs (file : String) (kind : Line → Prop) (text : String) : Prop :=
  ∀ number, ∃ line, Line.parse text file number = .ok ⟨.ok line, []⟩ ∧ kind line

section

variable {α : Type} {kind : α → Line → Prop} {file : String} {entries : List α} {texts : List String}
  (reads : List.Forall₂ (fun entry text => ReadAs file (kind entry) text) entries texts)
include reads

/-- Texts that are read as lines are read without a remark. -/
theorem readFrom_of_readAs (number : Nat) :
    ∃ results, ParsedFile.readFrom
        (fun text file number => (Line.parse text file number).map (·.map (·.map some))) file number texts =
        ⟨.ok results, []⟩ ∧
      results.filterMap LineResult.error? = [] ∧
      List.Forall₂ kind entries (results.filterMap LineResult.line?) := by
  induction reads generalizing number with
  | nil => exact ⟨[], rfl, rfl, .nil⟩
  | @cons _ text _ _ first _ ih =>
    obtain ⟨results, read, clean, kinds⟩ := ih (number + 1)
    obtain ⟨line, parsed, mine⟩ := first number
    refine ⟨⟨number, text, .ok (some line)⟩ :: results, ?_, clean, .cons mine kinds⟩
    rw [ParsedFile.readFrom, parsed, read]
    rfl

/-- A source whose lines are all read is read without complaint or remark. -/
theorem parseSource_of_readAs {source : String} (written : Text.lines source = texts) :
    ∃ parsed, parseSource source file = ⟨.ok parsed, []⟩ ∧ parsed.ok = true ∧
      List.Forall₂ kind entries parsed.lines := by
  obtain ⟨results, read, clean, kinds⟩ := readFrom_of_readAs reads 1
  refine ⟨⟨file, results⟩, ?_, ?_, kinds⟩
  · rw [parseSource, ParsedFile.read, written, read]
    rfl
  · rw [ParsedFile.ok, ParsedFile.errors, clean]
    rfl

end

theorem outcome_of_readFrom {L : Type} {file : String} {number : Nat} {texts : List String}
    {parse : String → String → Int → Except LexError (Warned (Except Diagnostic (Option L)))}
    {results : List (LineResult L)}
    (read : (ParsedFile.readFrom parse file number texts).value = .ok results) :
    ∀ r ∈ results, ∃ text n reading, parse text file n = .ok reading ∧ r.outcome = reading.value := by
  induction texts generalizing number results with
  | nil =>
    cases read
    simp
  | cons text rest ih =>
    unfold ParsedFile.readFrom at read
    split at read
    · cases read
    next reading first =>
      obtain ⟨others, later, rfl⟩ := map_eq_ok_iff.mp read
      intro r member
      rcases List.mem_cons.mp member with rfl | member
      · exact ⟨text, number, reading, first, rfl⟩
      · exact ih later r member

/-- The lines of a file come from the parser. -/
theorem isParsed_of_parseSource {source file : String} {parsed : ParsedFile Line}
    (read : (parseSource source file).value = .ok parsed) : ∀ line ∈ parsed.lines, line.IsParsed := by
  intro line member
  obtain ⟨results, found, rfl⟩ := map_eq_ok_iff.mp read
  obtain ⟨r, place, present⟩ := List.mem_filterMap.mp member
  obtain ⟨text, number, reading, made, outcome⟩ := outcome_of_readFrom found r place
  obtain ⟨first, parsed, rfl⟩ := map_eq_ok_iff.mp made
  unfold LineResult.line? at present
  rw [outcome] at present
  obtain ⟨value, warnings⟩ := first
  cases value with
  | error d => cases present
  | ok same =>
    cases present
    exact ⟨text, file, number, warnings, parsed⟩

end Source

end WordMachine
