import WordMachine.Layout
import WordMachine.Proofs.Source.Reading
import WordMachine.Proofs.Source.TokenPlaces

/-!
# Where lines are complained about

What the parser complains about in a line stands at one of its columns, or just after its end. A complaint is about
the first of the tokens that are left, about the last of those that were read, or about a column that was kept beside a
value; and all of these are columns of tokens of the line. Where no tokens are left the first column stands for them.

An operand keeps its column for the problems that show up later. Only the implied operand of a routine has none.
-/
namespace WordMachine.Source

open Token

/-- The column stands on a line of the width, or just after its end. -/
def OnLine (width column : Nat) : Prop :=
  1 ≤ column ∧ column ≤ width + 1

def TokensOnLine (width : Nat) (tokens : List Token) : Prop :=
  ∀ t ∈ tokens, OnLine width t.column

/-- What comes of reading a part of a line: something good, or a complaint about a column of the line. -/
def Answers {α : Type} (width : Nat) (good : α → Prop) : Except Complaint α → Prop
  | .ok a => good a
  | .error complaint => OnLine width complaint.column

def LineReader.ComplainsOnLine {L : Type} (parse : LineReader L) : Prop :=
  ∀ text file number reading d, Text.Unbroken text.toList → parse text file number = .ok reading →
    reading.value = .error d → ∃ problem column, OnLine text.length column ∧
      d = .problem (.malformed problem) (some ⟨file, number, column⟩) (some text)

/-! ## Tokens -/

section

variable {width : Nat} {tokens : List Token}

theorem onLine_one (width : Nat) : OnLine width 1 :=
  ⟨Nat.le_refl 1, Nat.le_add_left 1 width⟩

/-- By induction along the scanner: a column and the characters from it on make up the line. -/
theorem tokensOnLine_of_scanAll {rules : LexicalRules} {cs : List Char} {column : Nat} {spaced : Bool}
    (scanned : scanAll rules cs column spaced = .ok tokens) (start : 1 ≤ column)
    (whole : column + cs.length = width + 1) : TokensOnLine width tokens := by
  fun_induction scanAll rules cs column spaced generalizing tokens with
  | case1 =>
    cases scanned
    rw [List.length_nil] at whole
    intro t member
    rw [List.mem_singleton.mp member]
    exact ⟨start, by dsimp only; omega⟩
  | case2 column spaced c rest blank ih =>
    rw [List.length_cons] at whole
    exact ih scanned (by omega) (by omega)
  | case3 column spaced c rest visible ih =>
    obtain ⟨⟨kind, n⟩, taken, read⟩ := bind_eq_ok_iff.mp scanned
    obtain ⟨others, later, made⟩ := bind_eq_ok_iff.mp read
    cases made
    have bound := (scan_takes taken).1
    rw [List.length_cons] at whole
    refine List.forall_mem_cons.mpr ⟨⟨start, by dsimp only; omega⟩, ?_⟩
    exact ih n later (by omega) (by rw [List.length_drop]; omega)

theorem tokensOnLine_of_ofLine {rules : LexicalRules} {line : String} (read : ofLine rules line = .ok tokens) :
    TokensOnLine line.length tokens := by
  unfold ofLine at read
  split at read
  · cases read
  · exact tokensOnLine_of_scanAll read (Nat.le_refl 1) (by rw [String.length_toList]; omega)

namespace TokensOnLine

variable (inside : TokensOnLine width tokens)
include inside

theorem current : OnLine width (current tokens).column := by
  cases tokens with
  | nil => exact onLine_one width
  | cons t rest => exact inside t List.mem_cons_self

theorem advance : TokensOnLine width (advance tokens) := by
  unfold Token.advance
  split
  · exact inside
  · exact inside
  · exact fun t member => inside t (List.mem_cons_of_mem _ member)

theorem lastColumn (left : List Token) : OnLine width (lastColumn tokens left) := by
  unfold Token.lastColumn
  cases last : (tokens.take (tokens.length - left.length)).getLast? with
  | none => exact onLine_one width
  | some t => exact inside t (List.mem_of_mem_take (List.mem_of_getLast? last))

end TokensOnLine

end

/-! ## Answers -/

namespace Answers

variable {α β : Type} {width : Nat} {good : α → Prop} {fine : β → Prop}

theorem ok {step : Except Complaint α} {a : α} (answers : Answers width good step) (read : step = .ok a) : good a := by
  rwa [read] at answers

theorem error {step : Except Complaint α} {complaint : Complaint} (answers : Answers width good step)
    (refused : step = .error complaint) : OnLine width complaint.column := by
  rwa [refused] at answers

theorem bind {step : Except Complaint α} {next : α → Except Complaint β} (first : Answers width good step)
    (later : ∀ a, good a → Answers width fine (next a)) : Answers width fine (step >>= next) := by
  cases step with
  | error complaint => exact first
  | ok a => exact later a first

theorem map {step : Except Complaint α} {f : α → β} (first : Answers width good step)
    (later : ∀ a, good a → fine (f a)) : Answers width fine (f <$> step) := by
  cases step with
  | error complaint => exact first
  | ok a => exact later a first

theorem complain {tokens : List Token} (inside : TokensOnLine width tokens) (problem : Malformed) :
    Answers width good (complain tokens problem) :=
  inside.current

theorem unexpected {tokens : List Token} (inside : TokensOnLine width tokens) (rules : LexicalRules) (wanted : String) :
    Answers width good (unexpected rules tokens wanted) := by
  unfold Source.unexpected
  dsimp only
  split <;> exact inside.current

end Answers

/-! ## Parts that both dialects share -/

section

variable {width column : Nat}

/-- The sign of a number stands on the line. -/
theorem onLine_of_signedNumber? {tokens rest : List Token} {value : Numeric.Number}
    (inside : TokensOnLine width tokens) (read : signedNumber? tokens = some (value, column, rest)) :
    OnLine width column ∧ TokensOnLine width rest := by
  rw [signedNumber?_eq_signed?] at read
  split at read
  · cases read
  · obtain ⟨_, -, made⟩ := Option.map_eq_some_iff.mp read
    cases made
    exact ⟨inside.current, inside.advance.advance⟩

variable (here : OnLine width column)
include here

theorem answers_fitting (value : Numeric.Number) : Answers width (fun _ => True) (fitting value column) := by
  unfold fitting
  split
  · exact here
  · trivial

theorem answers_numberConstant (value : Numeric.Number) :
    Answers width (fun _ => True) (numberConstant value column) :=
  (answers_fitting here value).map fun _ _ => trivial

theorem answers_textConstant (content : String) : Answers width (fun _ => True) (textConstant content column) := by
  unfold textConstant
  dsimp only
  split
  · exact here
  · split
    · exact here
    · trivial

end

/-! ## Parts of a line -/

section

variable {width : Nat} {tokens : List Token} (inside : TokensOnLine width tokens)
include inside

theorem tokensOnLine_location : TokensOnLine width (LineParser.location tokens).2 := by
  unfold LineParser.location
  dsimp only
  split
  · exact inside
  · exact inside
  · split
    · exact inside.advance
    · exact inside
  · exact inside

theorem tokensOnLine_label : TokensOnLine width (LineParser.label tokens).2 := by
  unfold LineParser.label
  split
  · exact inside.advance.advance
  · exact inside

theorem tokensOnLine_accumulator : TokensOnLine width (LineParser.accumulator tokens).2 := by
  unfold LineParser.accumulator
  split
  · exact inside.advance.advance
  · exact inside

theorem answers_index : Answers width (fun r => TokensOnLine width r.2) (LineParser.index tokens) := by
  unfold LineParser.index
  dsimp only
  split
  · split
    · split
      · exact inside.advance.advance.advance
      · exact .complain inside.advance.advance _
    · exact .complain inside.advance _
  · exact inside

theorem answers_target : Answers width (fun _ => True) (LineParser.target tokens) := by
  unfold LineParser.target
  split
  · trivial
  · trivial
  · exact .unexpected inside _ _

theorem answers_starless (indirect : Bool) (column : Nat) :
    Answers width (fun r => TokensOnLine width r.2 ∧ r.1.column = column)
      (LineParser.starless indirect column tokens) :=
  (answers_target inside).bind fun _ _ => (answers_index inside.advance).bind fun _ left => ⟨left, rfl⟩

theorem answers_address (column : Nat) :
    Answers width (fun r => TokensOnLine width r.2 ∧ r.1.column = column) (LineParser.address tokens column) := by
  rw [address_eq_starless]
  split
  · exact answers_starless inside.advance true column
  · exact answers_starless inside false column

/-- An operand is complained about on its line, and its column is one of the line. -/
theorem answers_operand :
    Answers width (fun r => TokensOnLine width r.2 ∧ OnLine width (Encoding.column r.1))
      (LineParser.operand tokens) := by
  unfold LineParser.operand
  dsimp only
  split
  · exact ⟨inside, onLine_one width⟩
  · exact ⟨inside, onLine_one width⟩
  · exact (answers_textConstant inside.current _).bind fun _ _ => ⟨inside.advance, inside.current⟩
  · exact .complain inside _
  · split
    next value column rest signed =>
      obtain ⟨here, left⟩ := onLine_of_signedNumber? inside signed
      exact (answers_numberConstant here value).bind fun _ _ => ⟨left, here⟩
    · refine (answers_address inside _).bind fun r kept => ⟨kept.1, ?_⟩
      show OnLine width r.1.column
      exact kept.2 ▸ inside.current

/-- An instruction is complained about on its line, and the column of its operand is one of the line. -/
theorem answers_statement (name : String) :
    Answers width (fun r => TokensOnLine width r.2 ∧ Encoding.column r.1.operand ≤ width + 1)
      (LineParser.statement name tokens) := by
  unfold LineParser.statement
  split
  · exact .complain inside _
  next entry _ =>
    have start := tokensOnLine_accumulator inside.advance
    refine (answers_operand start).bind fun r kept => ?_
    obtain ⟨operand, rest⟩ := r
    dsimp only
    split
    · -- a routine takes no operand: the complaint is about the last token of the one that it was given
      exact start.lastColumn rest
    · exact ⟨kept.1, Nat.zero_le _⟩
    · split
      · exact ⟨kept.1, kept.2.2⟩
      · exact .complain kept.1 _
    · exact ⟨kept.1, kept.2.2⟩

/-- The word of a line. -/
theorem answers_content :
    Answers width (fun r => TokensOnLine width r.2 ∧
      ∀ s, r.1 = some (.statement s) → Encoding.column s.operand ≤ width + 1) (LineParser.content tokens) := by
  unfold LineParser.content
  dsimp only
  split
  · exact ⟨inside, by simp⟩
  · exact ⟨inside, by simp⟩
  · refine (answers_statement inside _).bind fun r kept => ⟨kept.1, fun s same => ?_⟩
    cases same
    exact kept.2
  · exact (answers_numberConstant inside.current _).map fun _ _ => ⟨inside.advance, by simp⟩
  · exact (answers_numberConstant inside.current _).map fun _ _ => ⟨inside.advance, by simp⟩
  · exact (answers_textConstant inside.current _).map fun _ _ => ⟨inside.advance, by simp⟩
  · split
    next value column rest signed =>
      obtain ⟨here, left⟩ := onLine_of_signedNumber? inside signed
      exact (answers_numberConstant here value).bind fun _ _ => ⟨left, by simp⟩
    · exact .unexpected inside _ _

theorem answers_comment : Answers width (fun _ => True) (LineParser.comment tokens) := by
  unfold LineParser.comment
  split
  next comment rest found =>
    have left : TokensOnLine width rest := by
      split at found
      · cases found
        exact inside.advance
      · cases found
        exact inside
    split
    · trivial
    · exact .complain left _

end

/-! ## Lines -/

section

variable {text file : String} {number : Int} {tokens : List Token} (scanned : ofLine symbolicRules text = .ok tokens)
include scanned

/-- A line is refused with a complaint about one of its columns. -/
theorem ofTokens_complains {d : Diagnostic} (refused : (Line.ofTokens tokens text file number).value = .error d) :
    ∃ problem column, OnLine text.length column ∧
      d = .problem (.malformed problem) (some ⟨file, number, column⟩) (some text) := by
  have start := tokensOnLine_label (tokensOnLine_location (tokensOnLine_of_ofLine scanned))
  obtain ⟨complaint, stopped, rfl⟩ := mapError_eq_error_iff.mp refused
  refine ⟨complaint.problem, complaint.column, ?_, rfl⟩
  rcases bind_eq_error_iff.mp stopped with unread | ⟨⟨content, rest⟩, written, stopped⟩
  · exact (answers_content start).error unread
  · rcases bind_eq_error_iff.mp stopped with trailing | ⟨comment, -, made⟩
    · exact (answers_comment ((answers_content start).ok written).1).error trailing
    · cases made

/-- The operand of a line that was read stands on the line, if it has a column. -/
theorem column_of_ofTokens {line : Line} (read : (Line.ofTokens tokens text file number).value = .ok line)
    {s : Statement} (present : line.content = some (.statement s)) :
    Encoding.column s.operand ≤ text.length + 1 := by
  have start := tokensOnLine_label (tokensOnLine_location (tokensOnLine_of_ofLine scanned))
  obtain ⟨content, rest, comment, written, -, rfl⟩ := ofTokens_eq_ok_iff.mp read
  exact ((answers_content start).ok written).2 s present

end

/-- The reader of the symbolic dialect complains about columns of its lines. -/
theorem symbolic_complainsOnLine : symbolicReader.ComplainsOnLine := by
  intro text file number reading d unbroken read complained
  rw [symbolicReader_eq unbroken] at read
  obtain ⟨tokens, scanned, rfl⟩ := map_eq_ok_iff.mp read
  exact ofTokens_complains scanned (map_eq_error_iff.mp complained)

end WordMachine.Source
