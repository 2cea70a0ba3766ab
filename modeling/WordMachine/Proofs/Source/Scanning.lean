import WordMachine.Proofs.Results
import WordMachine.Proofs.Text.Numeral
import WordMachine.Source.Token

/-!
# Lines without tokens

A scanner takes any character: what starts nothing else is a token of its own. The one thing that leaves a
line without tokens is a numeral that cannot be read, and then only where the scanner comes to it
(`Reaches`), outside texts and comments with a mark.
-/
namespace WordMachine.Source.Token

/-! ## Numerals -/

namespace Numeral

def digits (n : Numeral) : List Char :=
  n.whole ++ n.fraction.getD [] ++ n.exponent.elim [] Prod.snd

/-- One of the digits has no value, or they write an integer that is too long. -/
def Unreadable (n : Numeral) : Prop :=
  (∃ c ∈ n.digits, Text.decimalValue? c = none) ∨
    n.fraction = none ∧ n.exponent = none ∧ Text.maxDigits < n.whole.length

theorem exponentValue?_eq_none_iff (n : Numeral) :
    n.exponentValue? = none ↔ ∃ c ∈ n.exponent.elim [] Prod.snd, Text.decimalValue? c = none := by
  unfold exponentValue?
  cases n.exponent with
  | none => simp
  | some exponent =>
    dsimp only [Option.elim_some]
    rw [← Text.natOfDigits?_eq_none_iff]
    cases Text.natOfDigits? exponent.2 <;> simp

/-- A numeral cannot be made a token exactly if it is unreadable. -/
theorem exists_kind_error_iff (n : Numeral) : (∃ e, n.kind = .error e) ↔ n.Unreadable := by
  obtain ⟨whole, fraction, exponent⟩ := n
  unfold kind Unreadable
  by_cases integer : fraction = none ∧ exponent = none
  · obtain ⟨rfl, rfl⟩ := integer
    have refused := @Text.exists_readNumeral_error_iff whole
    simp only [Option.isNone_none, Bool.and_self, if_true, digits, Option.getD_none, Option.elim_none,
      List.append_nil, true_and]
    rw [← refused]
    cases Text.readNumeral whole <;> simp
  · have real : ¬ (fraction.isNone && exponent.isNone) = true := by simpa using integer
    have short : ¬ (fraction = none ∧ exponent = none ∧ Text.maxDigits < whole.length) :=
      fun long => integer ⟨long.1, long.2.1⟩
    have refused : (∃ c ∈ digits ⟨whole, fraction, exponent⟩, Text.decimalValue? c = none) ↔
        Text.natOfDigits? (whole ++ fraction.getD []) = none ∨
          exponentValue? ⟨whole, fraction, exponent⟩ = none := by
      rw [Text.natOfDigits?_eq_none_iff, exponentValue?_eq_none_iff, digits]
      simp only [List.mem_append, or_and_right, exists_or]
    rw [if_neg real, refused]
    simp only [short, or_false]
    cases Text.natOfDigits? (whole ++ fraction.getD []) <;>
      cases exponentValue? ⟨whole, fraction, exponent⟩ <;> simp

theorem isDigit_of_mem_takeWhile {c : Char} {cs : List Char} (member : c ∈ cs.takeWhile Text.isDigit) :
    c ∈ cs ∧ Text.isDigit c = true :=
  ⟨(List.takeWhile_prefix _).subset member, List.mem_takeWhile_imp member⟩

theorem isDigit_of_mem_fraction? {c : Char} {cs digits : List Char} (found : fraction? cs = some digits)
    (member : c ∈ digits) : c ∈ cs ∧ Text.isDigit c = true := by
  unfold fraction? at found
  split at found
  next d rest =>
    split at found
    next digit =>
      cases found
      rcases List.mem_cons.mp member with rfl | later
      · simp [digit]
      · have inside := isDigit_of_mem_takeWhile later
        simp [inside]
    · cases found
  · cases found

theorem isDigit_of_mem_exponent? {c : Char} {cs sign digits : List Char}
    (found : exponent? cs = some (sign, digits)) (member : c ∈ digits) :
    c ∈ cs ∧ Text.isDigit c = true := by
  unfold exponent? at found
  split at found
  next rest =>
    dsimp only at found
    split at found
    · cases found
    · cases found
      have inside := isDigit_of_mem_takeWhile (List.mem_of_mem_take member)
      exact ⟨List.mem_cons_of_mem _ (List.mem_of_mem_drop inside.1), inside.2⟩
  · cases found

/-- The digits of a numeral are digits of the text that it is taken from. -/
theorem isDigit_of_mem_digits {c : Char} {cs : List Char} (member : c ∈ (scan cs).digits) :
    c ∈ cs ∧ Text.isDigit c = true := by
  unfold digits at member
  rw [List.mem_append, List.mem_append] at member
  rcases member with (whole | fraction) | exponent
  · exact isDigit_of_mem_takeWhile whole
  · cases found : (scan cs).fraction with
    | none => simp [found] at fraction
    | some ds =>
      rw [found] at fraction
      have inside := isDigit_of_mem_fraction? found fraction
      exact ⟨List.mem_of_mem_drop inside.1, inside.2⟩
  · cases found : (scan cs).exponent with
    | none => simp [found] at exponent
    | some parts =>
      rw [found] at exponent
      have inside := isDigit_of_mem_exponent? found exponent
      exact ⟨List.mem_of_mem_drop inside.1, inside.2⟩

end Numeral

/-! ## One token -/

/-- No digit and no point opens a comment or a text. -/
structure ApartFromNumerals (rules : LexicalRules) : Prop where
  comment : ∀ c, rules.commentMark = some c → Text.isDigit c = false ∧ c ≠ '.'
  quote : Text.isDigit rules.openQuote = false ∧ rules.openQuote ≠ '.'

theorem symbolicRules_apart : ApartFromNumerals symbolicRules :=
  ⟨fun c mark => by cases mark; decide, by decide⟩

theorem legacyRules_apart : ApartFromNumerals legacyRules :=
  ⟨fun c mark => (by cases mark), by decide⟩

/-- The characters start with a digit, or with a point before one. -/
def StartsNumeral (cs : List Char) : Prop :=
  ∃ c rest, cs = c :: rest ∧ (Text.isDigit c || (c == '.' && rest.head?.any Text.isDigit)) = true

/-- Where no numeral starts there always is a token. -/
theorem exists_scan_ok_of_plain (rules : LexicalRules) {c : Char} {rest : List Char}
    (plain : ¬ StartsNumeral (c :: rest)) : ∃ taken, scan rules c rest = .ok taken := by
  have other : ¬ (Text.isDigit c || (c == '.' && rest.head?.any Text.isDigit)) = true :=
    fun digit => plain ⟨c, rest, rfl, digit⟩
  unfold scan
  split
  · exact ⟨_, rfl⟩
  · split
    · exact ⟨_, rfl⟩
    · split
      · exact ⟨_, rfl⟩
      · split <;> exact ⟨_, rfl⟩

/-- Where a numeral starts nothing else does. -/
theorem scan_of_startsNumeral {rules : LexicalRules} (apart : ApartFromNumerals rules) {c : Char}
    {rest : List Char} (starts : StartsNumeral (c :: rest)) :
    scan rules c rest =
      (Numeral.scan (c :: rest)).kind.map (·, (Numeral.scan (c :: rest)).width - 1) := by
  obtain ⟨_, _, same, digit⟩ := starts
  cases same
  have either : Text.isDigit c = true ∨ c = '.' := by
    rcases (Bool.or_eq_true _ _).mp digit with own | point
    · exact Or.inl own
    · exact Or.inr (beq_iff_eq.mp ((Bool.and_eq_true _ _).mp point).1)
  have other {d : Char} (apart : Text.isDigit d = false ∧ d ≠ '.') : c ≠ d := by
    rintro rfl
    rcases either with own | point
    · rw [apart.1] at own
      cases own
    · exact apart.2 point
  have uncommented : rules.commentMark ≠ some c := fun mark => other (apart.comment c mark) rfl
  have plain : (rules.octalWords && c == '(') = false := by
    simp [other (d := '(') (by decide)]
  unfold scan
  simp only [uncommented, other apart.quote, plain, digit, if_true, if_false, Bool.false_eq_true]

/-- All that a scanner can refuse is a numeral. -/
theorem exists_scan_error_iff {rules : LexicalRules} (apart : ApartFromNumerals rules) {c : Char}
    {rest : List Char} : (∃ e, scan rules c rest = .error e) ↔
      StartsNumeral (c :: rest) ∧ (Numeral.scan (c :: rest)).Unreadable := by
  rw [← Numeral.exists_kind_error_iff]
  by_cases starts : StartsNumeral (c :: rest)
  · rw [scan_of_startsNumeral apart starts]
    cases (Numeral.scan (c :: rest)).kind <;> simp [Except.map, starts]
  · obtain ⟨taken, made⟩ := exists_scan_ok_of_plain rules starts
    simp [made, starts]

/-! ## One line -/

/-- The scanner comes to these characters of a line: it passes blanks and takes tokens as wholes. -/
inductive Reaches (rules : LexicalRules) (line : List Char) : List Char → Prop
  | start : Reaches rules line line
  | gap {c : Char} {rest : List Char} (before : Reaches rules line (c :: rest)) (blank : isGap c = true) :
    Reaches rules line rest
  | token {c : Char} {rest : List Char} {kind : TokenKind} {n : Nat}
    (before : Reaches rules line (c :: rest)) (visible : isGap c = false)
    (taken : scan rules c rest = .ok (kind, n)) : Reaches rules line (rest.drop n)

namespace Reaches

variable {rules : LexicalRules} {line middle rest : List Char}

theorem trans (first : Reaches rules line middle) (second : Reaches rules middle rest) :
    Reaches rules line rest := by
  induction second with
  | start => exact first
  | gap _ blank ih => exact ih.gap blank
  | token _ visible taken ih => exact ih.token visible taken

/-- What the scanner comes to is the end of the line from somewhere on. -/
theorem suffix (reaches : Reaches rules line rest) : rest <:+ line := by
  induction reaches with
  | start => exact List.suffix_rfl
  | gap _ _ ih => exact (List.suffix_cons _ _).trans ih
  | token _ _ _ ih => exact ((List.drop_suffix _ _).trans (List.suffix_cons _ _)).trans ih

end Reaches

section

variable {rules : LexicalRules} {e : LexError}

theorem scanAll_of_gap {c : Char} (rest : List Char) (blank : isGap c = true) (column : Nat) (spaced : Bool) :
    scanAll rules (c :: rest) column spaced = scanAll rules rest (column + 1) true := by
  rw [scanAll, if_pos blank]

theorem scanAll_of_token {c : Char} {rest : List Char} {kind : TokenKind} {n : Nat}
    (visible : isGap c = false) (taken : scan rules c rest = .ok (kind, n)) (column : Nat) (spaced : Bool) :
    scanAll rules (c :: rest) column spaced =
      (⟨kind, String.ofList (c :: rest.take n), column, spaced⟩ :: ·) <$>
        scanAll rules (rest.drop n) (column + 1 + n) false := by
  rw [scanAll, visible, taken]
  rfl

theorem scanAll_of_refused {c : Char} {rest : List Char} (visible : isGap c = false)
    (refused : scan rules c rest = .error e) (column : Nat) (spaced : Bool) :
    scanAll rules (c :: rest) column spaced = .error e := by
  rw [scanAll, visible, refused]
  rfl

/-- What the scanner comes to is refused with the line. -/
theorem scanAll_of_reaches {line rest : List Char} (reaches : Reaches rules line rest)
    (refused : ∀ column spaced, scanAll rules rest column spaced = .error e) (column : Nat) (spaced : Bool) :
    scanAll rules line column spaced = .error e := by
  induction reaches with
  | start => exact refused column spaced
  | gap _ blank ih =>
    exact ih fun column spaced => (scanAll_of_gap _ blank column spaced).trans (refused _ _)
  | token _ visible taken ih =>
    exact ih fun column spaced =>
      (scanAll_of_token visible taken column spaced).trans (map_eq_error_iff.mpr (refused _ _))

/-- A line is refused where the scanner comes to something that it refuses. -/
theorem scanAll_eq_error_iff {line : List Char} {column : Nat} {spaced : Bool} :
    scanAll rules line column spaced = .error e ↔ ∃ c rest, Reaches rules line (c :: rest) ∧
      isGap c = false ∧ scan rules c rest = .error e := by
  constructor
  · intro refused
    fun_induction scanAll rules line column spaced with
    | case1 => cases refused
    | case2 column spaced c rest blank ih =>
      obtain ⟨d, more, reaches, here⟩ := ih refused
      exact ⟨d, more, (Reaches.start.gap blank).trans reaches, here⟩
    | case3 column spaced c rest visible ih =>
      have seen : isGap c = false := by simpa using visible
      cases taken : scan rules c rest with
      | error other =>
        rw [taken] at refused
        cases refused
        exact ⟨c, rest, .start, seen, taken⟩
      | ok found =>
        obtain ⟨kind, n⟩ := found
        rw [taken] at refused
        have later : scanAll rules (rest.drop n) (column + 1 + n) false = .error e := map_eq_error_iff.mp refused
        obtain ⟨d, more, reaches, here⟩ := ih n later
        exact ⟨d, more, (Reaches.start.token seen taken).trans reaches, here⟩
  · rintro ⟨c, rest, reaches, visible, refused⟩
    exact scanAll_of_reaches reaches (scanAll_of_refused visible refused) column spaced

/-- The scanner comes to a numeral of the line that cannot be read. -/
def Stuck (rules : LexicalRules) (line : List Char) : Prop :=
  ∃ rest, Reaches rules line rest ∧ StartsNumeral rest ∧ (Numeral.scan rest).Unreadable

theorem isGap_of_startsNumeral {c : Char} {rest : List Char} (starts : StartsNumeral (c :: rest)) :
    isGap c = false := by
  obtain ⟨_, _, same, digit⟩ := starts
  cases same
  rw [isGap, Bool.or_eq_false_iff, beq_eq_false_iff_ne, beq_eq_false_iff_ne]
  constructor <;> (rintro rfl; cases digit)

/-- Characters have no tokens exactly when the scanner is stuck, wherever they start. -/
theorem exists_scanAll_error_iff (apart : ApartFromNumerals rules) {line : List Char} {column : Nat} {spaced : Bool} :
    (∃ e, scanAll rules line column spaced = .error e) ↔ Stuck rules line := by
  simp only [scanAll_eq_error_iff]
  constructor
  · rintro ⟨e, c, rest, reaches, -, refused⟩
    exact ⟨c :: rest, reaches, (exists_scan_error_iff apart).mp ⟨e, refused⟩⟩
  · rintro ⟨rest, reaches, starts, unreadable⟩
    obtain ⟨c, more, rfl, -⟩ := id starts
    obtain ⟨e, refused⟩ := (exists_scan_error_iff apart).mpr ⟨starts, unreadable⟩
    exact ⟨e, c, more, reaches, isGap_of_startsNumeral starts, refused⟩

/-- A line has no tokens exactly when the scanner is stuck. -/
theorem exists_ofLine_error_iff (apart : ApartFromNumerals rules) {line : String}
    (single : '\n' ∉ line.toList) : (∃ e, ofLine rules line = .error e) ↔ Stuck rules line.toList := by
  have one : ¬ line.toList.contains '\n' = true := by simpa using single
  rw [ofLine, if_neg one, exists_scanAll_error_iff apart]

/-- A scanner is never stuck in a text whose digits can be read. -/
theorem not_stuck {line : List Char} (readable : Text.DigitsReadable line) : ¬ Stuck rules line := by
  rintro ⟨rest, reaches, -, ⟨c, member, valueless⟩ | ⟨-, -, long⟩⟩
  · obtain ⟨inside, digit⟩ := Numeral.isDigit_of_mem_digits member
    exact readable.valued c (reaches.suffix.subset inside) digit valueless
  · have run : (Numeral.scan rest).whole <:+: line :=
      (List.takeWhile_prefix _).isInfix.trans reaches.suffix.isInfix
    have fits := readable.short _ run fun c member => (Numeral.isDigit_of_mem_takeWhile member).2
    omega

end

end WordMachine.Source.Token
