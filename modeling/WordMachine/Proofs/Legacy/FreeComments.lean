import WordMachine.Proofs.Legacy.SteadyParts
import WordMachine.Proofs.Source.TokenPlaces

/-!
# Lines with a free comment

A comment of the legacy dialect is whatever follows the word after a blank. Location and word are read as without it,
and it is cut from the line at the column of its first token; so it may hold anything, signs, brackets and texts that
are never closed included (`parse_commented`). What it may not hold is a numeral that the scanner cannot read, since
the scanner does not know where the comment begins.
-/
namespace WordMachine.Legacy

open Source Source.Token

/-! ## Parts -/

section

variable {comment : List Char} {more tokens tokens' : List Token} {width : Nat} {broken : Bool}

/-- A comment is what the text has after the word and a blank, however it is cut into tokens. -/
theorem comment_of_trails (trails : Trails comment width more) {text : String}
    (cut : text.toList.drop (width + 1) = comment) :
    LineParser.comment more text = .ok (String.ofList comment) := by
  unfold LineParser.comment
  dsimp only
  rcases trails.first with ⟨rfl, ends⟩ | ⟨further, column, spaced⟩
  · rw [ends]
  · rw [spaced, column, show width + 2 - 1 = width + 1 from rfl, cut]
    split
    next ends => exact absurd ends further
    · rfl

/-- What is not the end of the line leaves something for the comment. -/
theorem comment_of_further {t : Token} {text : String} (further : t.kind ≠ .endOfLine)
    (inside : t.column - 1 < text.toList.length) : LineParser.comment (t :: tokens) text ≠ .ok "" := by
  intro read
  have first : current (t :: tokens) = t := rfl
  unfold LineParser.comment at read
  dsimp only at read
  rw [first] at read
  split at read
  next ends => exact further ends
  · split at read
    · have empty := congrArg String.toList (Except.ok.inj read)
      have length := congrArg List.length empty
      simp only [String.toList_ofList, List.length_drop, String.toList_empty, List.length_nil] at length
      omega
    · cases read

variable (longer : Extends more width broken tokens tokens')
include longer

/-- Where a line has no comment, the comment that is put at its end begins. -/
theorem rest_of_comment {text : String} (length : text.toList.length = width)
    (read : LineParser.comment tokens text = .ok "") : broken = false ∧ tokens' = more := by
  cases longer with
  | ended => exact ⟨rfl, rfl⟩
  | unclosed opens inside others =>
    exact absurd read (comment_of_further (by simp [opens]) (length ▸ inside))
  | @token broken t tokens tokens' inner inside others =>
    have further : t.kind ≠ .endOfLine := by
      intro ends
      rw [ends] at inner
      cases inner
    exact absurd read (comment_of_further further (length ▸ inside))

/-- A line keeps its parts before a comment, unless its word could take the first token of it. -/
theorem parts_extends (trails : Trails comment width more) {text text' : String} {location : Nat} {content : Content}
    (length : text.toList.length = width) (cut : text'.toList.drop (width + 1) = comment) (clear : ¬ content.Ambiguous)
    (read : LineParser.parts tokens text = .ok (location, content, "")) :
    broken = false ∧ LineParser.parts tokens' text' = .ok (location, content, String.ofList comment) := by
  have first := longer.current_eq (by rintro ends; simp [LineParser.parts, ends, complain] at read)
  unfold LineParser.parts at read ⊢
  rw [first]
  split at read
  next n number =>
    have after := longer.advance_of_kind trails number rfl
    dsimp only at read ⊢
    split at read
    · cases read
    next stands =>
      have further : (current (advance tokens)).kind ≠ .endOfLine := fun ends => stands (Or.inl ends)
      obtain ⟨⟨word, left⟩, written, read⟩ := bind_eq_ok_iff.mp read
      obtain ⟨_, free, made⟩ := bind_eq_ok_iff.mp read
      cases made
      obtain ⟨left', written', last⟩ := content_extends trails after further clear written
      obtain ⟨whole, rfl⟩ := rest_of_comment last length free
      rw [after.current_eq further, if_neg stands]
      refine ⟨whole, bind_eq_ok_iff.mpr ⟨_, written', bind_eq_ok_iff.mpr ⟨_, comment_of_trails trails cut, rfl⟩⟩⟩
  · cases read

end

theorem trails_of_scanAll {comment : List Char} {width : Nat} {more : List Token}
    (apart : ∀ c ∈ comment.head?, isGap c = false)
    (read : scanAll legacyRules comment (width + 2) true = .ok more) : Trails comment width more := by
  cases comment with
  | nil =>
    rw [scanAll] at read
    cases read
    exact ⟨by simp, Or.inl ⟨rfl, rfl⟩⟩
  | cons c rest =>
    rw [scanAll, apart c rfl] at read
    obtain ⟨⟨kind, n⟩, taken, read⟩ := bind_eq_ok_iff.mp read
    obtain ⟨others, -, made⟩ := bind_eq_ok_iff.mp read
    cases made
    exact ⟨by simp, Or.inr ⟨(scan_takes taken).2.1, rfl, rfl⟩⟩

/-! ## Lines -/

/-- A line is read when its parts are. -/
theorem ofTokens_eq_ok_iff {tokens : List Token} {text file : String} {number : Int} {line : Line} :
    Line.ofTokens tokens text file number = .ok (some line) ↔
      (current tokens).kind ≠ .endOfLine ∧ ∃ location content comment,
        LineParser.parts tokens text = .ok (location, content, comment) ∧
        line = { number, text, location, content, comment, file } := by
  unfold Line.ofTokens
  split
  next ends => simp [ends]
  next further =>
    split
    next complaint refused => simp [refused]
    next location content comment read =>
      rw [read]
      constructor
      · intro made
        cases made
        exact ⟨further, location, content, comment, rfl, rfl⟩
      · rintro ⟨-, location, content, comment, same, rfl⟩
        cases same
        rfl

theorem parse_of_single {text : String} (single : ∀ c ∈ text.toList, c ≠ '\n' ∧ c ≠ '\r') (file : String)
    (number : Int) : Line.parse text file number =
      (fun tokens => ⟨Line.ofTokens tokens text file number, []⟩) <$> scanAll legacyRules text.toList 1 false := by
  have feedless : ¬ text.toList.contains '\n' = true := by
    rw [List.contains_iff_mem]
    exact fun member => (single _ member).1 rfl
  unfold Line.parse
  dsimp only
  rw [dropReturns_eq_self fun member => (single _ member).2 rfl, ofLine, if_neg feedless]
  cases scanAll legacyRules text.toList 1 false <;> rfl

section

variable {text comment file : String} {number : Int} {line : Line}
  (read : Line.parse text file number = .ok ⟨.ok (some line), []⟩) (bare : line.comment = "")
  (clear : ¬ line.content.Ambiguous) (single : ∀ c ∈ (text ++ " " ++ comment).toList, c ≠ '\n' ∧ c ≠ '\r')
  (apart : ∀ c ∈ comment.toList.head?, c ≠ ' ' ∧ c ≠ '\t')
include read bare clear single apart

/-- A line with a comment is read as the line without it if the comment has tokens, whichever these are. -/
theorem parse_followed : Line.parse (text ++ " " ++ comment) file number =
    (fun _ => ⟨.ok (some { line with text := text ++ " " ++ comment, comment }), []⟩) <$>
      scanAll legacyRules comment.toList (text.toList.length + 2) true := by
  have characters : (text ++ " " ++ comment).toList = text.toList ++ ' ' :: comment.toList := by simp
  have cut : (text ++ " " ++ comment).toList.drop (text.toList.length + 1) = comment.toList := by
    simp [characters, List.drop_append]
  rw [parse_of_single fun c member => single c (by simp [member])] at read
  obtain ⟨tokens, scanned, made⟩ := map_eq_ok_iff.mp read
  obtain ⟨further, location, content, free, parts, rfl⟩ := ofTokens_eq_ok_iff.mp (congrArg Warned.value made)
  obtain rfl : free = "" := bare
  rw [parse_of_single single, characters]
  rcases scanAll_trailing scanned (Nat.le_refl 1) (Nat.add_comm _ _) comment.toList with
    ⟨front, extended, trailing⟩ | broken
  · rw [trailing]
    cases scanned' : scanAll legacyRules comment.toList (text.toList.length + 2) true with
    | error e => rfl
    | ok more =>
      have visible : ∀ c ∈ comment.toList.head?, isGap c = false := fun c first => by simp [isGap, apart c first]
      have trails := trails_of_scanAll visible scanned'
      have longer := extended more
      have parts' := (parts_extends longer trails rfl cut clear parts).2
      have made' : Line.ofTokens (front ++ more) (text ++ " " ++ comment) file number =
          .ok (some ⟨number, text ++ " " ++ comment, location, content, comment, file⟩) := by
        rw [String.ofList_toList] at parts'
        exact ofTokens_eq_ok_iff.mpr ⟨longer.current_eq further ▸ further, location, content, _, parts', rfl⟩
      exact congrArg (fun made => Except.ok (Warned.mk made [])) made'
  · -- a line with a text that is never closed would have it for a comment
    have trails : Trails [] text.toList.length [nowhere] := ⟨by simp, Or.inl ⟨rfl, rfl⟩⟩
    have empty : ("" : String).toList.drop (text.toList.length + 1) = [] := by simp
    have parts' := parts_extends (broken [nowhere]) trails rfl empty clear parts
    cases parts'.1

/-- After a line that can be read, only a numeral of the comment can keep the text from being read. -/
theorem exists_parse_error_iff :
    (∃ e, Line.parse (text ++ " " ++ comment) file number = .error e) ↔ Stuck legacyRules comment.toList := by
  rw [parse_followed read bare clear single apart]
  simp only [map_eq_error_iff, exists_scanAll_error_iff legacyRules_apart]

/-- A comment changes nothing else about its line, and comes back as it is. Only a numeral in it that the scanner
comes to and that cannot be read keeps the line from being read. -/
theorem parse_commented :
    (¬ Stuck legacyRules comment.toList → Line.parse (text ++ " " ++ comment) file number =
      .ok ⟨.ok (some { line with text := text ++ " " ++ comment, comment }), []⟩) ∧
    ((∃ e, Line.parse (text ++ " " ++ comment) file number = .error e) ↔ Stuck legacyRules comment.toList) ∧
    (Text.DigitsReadable comment.toList → ¬ Stuck legacyRules comment.toList) := by
  have refused := exists_parse_error_iff read bare clear single apart
  refine ⟨fun free => ?_, refused, not_stuck⟩
  rw [parse_followed read bare clear single apart] at refused ⊢
  cases scanned : scanAll legacyRules comment.toList (text.toList.length + 2) true with
  | error e => exact absurd (refused.mp ⟨e, map_eq_error_iff.mpr scanned⟩) free
  | ok more => rfl

end

def stopLine : Line where
  number := 1
  text := "9 STOP"
  location := 9
  content := .library "STOP"
  comment := ""
  file := "stop"

theorem parse_stopLine : Line.parse "9 STOP" "stop" 1 = .ok ⟨.ok (some stopLine), []⟩ := by
  have scanned : scanAll legacyRules "9 STOP".toList 1 false = .ok
      [⟨.number 9, "9", 1, false⟩, ⟨.identifier "STOP", "STOP", 3, true⟩, ⟨.endOfLine, "", 7, false⟩] := by
    decide +kernel
  rw [parse_of_single (by simp), scanned]
  rfl

theorem clear_stopLine : ¬ stopLine.content.Ambiguous := by
  rintro ⟨mnemonic, take | put⟩
  · cases take
  · cases put

/-- A sign and a bracket after a blank do not belong to the word. -/
theorem stopLine_parse_commented :
    Line.parse "9 STOP" "stop" 1 = .ok ⟨.ok (some stopLine), []⟩ ∧ ¬ stopLine.content.Ambiguous ∧
    Line.parse "9 STOP :2 <end" "stop" 1 =
      .ok ⟨.ok (some { stopLine with text := "9 STOP :2 <end", comment := ":2 <end" }), []⟩ := by
  have commented := @parse_commented "9 STOP" ":2 <end" "stop" 1 stopLine parse_stopLine rfl clear_stopLine
    (by simp) (by simp)
  have readable : Text.DigitsReadable ":2 <end".toList :=
    ⟨List.forall_iff_forall_mem.mp (by decide), fun run inside _ => inside.length_le.trans (by decide)⟩
  exact ⟨parse_stopLine, clear_stopLine, commented.1 (commented.2.2 readable)⟩

def longDigits : List Char :=
  List.replicate (Text.maxDigits + 1) '1'

/-- The comment is scanned like code, and its digits are too many. -/
theorem stuck_longDigits : Stuck legacyRules longDigits := by
  have digits : ∀ c ∈ longDigits, Text.isDigit c = true := by
    intro c member
    rw [List.eq_of_mem_replicate member]
    decide
  have ends : EndsNumeral [] := by simp [EndsNumeral]
  have whole : Numeral.scan longDigits = ⟨longDigits, none, none⟩ := by
    simpa using scan_numeral digits ends
  refine ⟨longDigits, .start, ⟨'1', List.replicate Text.maxDigits '1', rfl, rfl⟩, Or.inr ?_⟩
  rw [whole]
  exact ⟨rfl, rfl, by simp [longDigits]⟩

/-- A comment of too many digits keeps its line from being read, although each of them has a value. -/
theorem longDigits_refused :
    Line.parse "9 STOP" "stop" 1 = .ok ⟨.ok (some stopLine), []⟩ ∧ stopLine.comment = "" ∧
    ¬ stopLine.content.Ambiguous ∧
    (∀ c ∈ ("9 STOP" ++ " " ++ String.ofList longDigits).toList, c ≠ '\n' ∧ c ≠ '\r') ∧
    (∀ c ∈ longDigits.head?, c ≠ ' ' ∧ c ≠ '\t') ∧
    (∀ c ∈ longDigits, Text.decimalValue? c ≠ none) ∧
    ∃ e, Line.parse ("9 STOP" ++ " " ++ String.ofList longDigits) "stop" 1 = .error e := by
  have ones : ∀ c ∈ longDigits, c = '1' := fun c member => List.eq_of_mem_replicate member
  have single : ∀ c ∈ ("9 STOP" ++ " " ++ String.ofList longDigits).toList, c ≠ '\n' ∧ c ≠ '\r' := by
    have front : ∀ c ∈ ("9 STOP" ++ " ").toList, c ≠ '\n' ∧ c ≠ '\r' := by simp
    intro c member
    rw [String.toList_append, String.toList_ofList] at member
    rcases List.mem_append.mp member with before | digit
    · exact front c before
    · rw [ones c digit]
      decide
  have apart : ∀ c ∈ longDigits.head?, c ≠ ' ' ∧ c ≠ '\t' := by
    intro c first
    rw [ones c (List.mem_of_mem_head? first)]
    decide
  have valued : ∀ c ∈ longDigits, Text.decimalValue? c ≠ none := by
    intro c member
    rw [ones c member]
    decide
  refine ⟨parse_stopLine, rfl, clear_stopLine, single, apart, valued, ?_⟩
  have refused := exists_parse_error_iff parse_stopLine rfl clear_stopLine single (by rwa [String.toList_ofList])
  rw [String.toList_ofList] at refused
  exact refused.mpr stuck_longDigits

end WordMachine.Legacy
