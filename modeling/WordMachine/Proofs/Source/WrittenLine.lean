import WordMachine.Proofs.Source.PlainLine

/-!
# Lines written and read again

A line is written as its location, its label with a colon, its word, and its comment after a semicolon, separated
by single blanks. Each part spells the tokens that the parser wants, and the line is read back from its text.
-/
namespace WordMachine.Source

/-! ## Lines as text -/

/-- A constant as the word of a line: a text in quotes, a number with its sign if it is negative. -/
def Constant.data : Constant → String
  | .integer n => toString n
  | c => c.written

def Content.written : Content → String
  | .constant c => c.data
  | .statement s => s.written

def Line.texts (l : Line) : List String :=
  (l.location.elim [] fun n => [toString n]) ++ (l.label.elim [] fun name => [name ++ ":"]) ++
    (l.content.elim [] fun c => [c.written]) ++ (l.comment.elim [] fun text => [";" ++ text])

def Constant.numbers : Constant → List Int
  | .integer n => [n]
  | _ => []

def Operand.numbers : Operand → List Int
  | .address ⟨.location n, index, _, _⟩ => (n : Int) :: index.toList.map Int.ofNat
  | .address ⟨.label _, index, _, _⟩ => index.toList.map Int.ofNat
  | .constant c _ => c.numbers

def Content.numbers : Content → List Int
  | .constant c => c.numbers
  | .statement s => s.accumulator.toList.map Int.ofNat ++ s.operand.elim [] Operand.numbers

def Line.numbers (l : Line) : List Int :=
  l.location.toList.map Int.ofNat ++ l.content.elim [] Content.numbers

/-- The text of a line, if none of its integers is too long to be written. -/
def Line.written? (l : Line) : Option String :=
  if l.numbers.all Text.isWritable then some (" ".intercalate l.texts) else none

open Token

/-! ## Parts that are written -/

theorem single_of_isAlphanum {cs : List Char} (all : ∀ c ∈ cs, c.isAlphanum = true) :
    ∀ c ∈ cs, c ≠ '\n' ∧ c ≠ '\r' := by
  intro c member
  have letter := all c member
  constructor <;> (rintro rfl; cases letter)

theorem single_of_writes {cs : List Char} {n : Nat} (writes : Text.Writes cs n) : ∀ c ∈ cs, c ≠ '\n' ∧ c ≠ '\r' :=
  single_of_isAlphanum fun c member => by simp [Char.isAlphanum, writes.digits c member]

theorem IsName.isAlphanum {name : String} (named : IsName name) : ∀ c ∈ name.toList, c.isAlphanum = true := by
  obtain ⟨c, tail, same, letter, others⟩ := named
  rw [same, List.forall_mem_cons]
  exact ⟨by simp [Char.isAlphanum, letter], others⟩

theorem IsName.spell {name : String} (named : IsName name) {rest : List Char} (ends : EndsName rest) :
    Spell name.toList (.identifier name) rest := by
  obtain ⟨c, tail, same, letter, others⟩ := named
  have spelled := spell_name letter others ends
  rwa [← same, String.ofList_toList] at spelled

theorem part_number {cs : List Char} {n : Nat} (writes : Text.Writes cs n) : Part cs [.number n] :=
  .one (fun _ parted => spell_number writes parted.endsNumeral) (single_of_writes writes)

theorem part_name {name : String} (named : IsName name) : Part name.toList [.identifier name] :=
  .one (fun _ parted => named.spell parted.endsName) (single_of_isAlphanum named.isAlphanum)

theorem part_label {name : String} (named : IsName name) : Part (name.toList ++ [':']) [.identifier name, .colon] :=
  have colon : Part [':'] [.colon] := .mark (fun _ => ⟨':', [], rfl, rfl, rfl⟩) (by decide)
  .cons (fun _ _ => named.spell (endsName_cons rfl)) colon.continues (single_of_isAlphanum named.isAlphanum)

theorem part_accumulator {cs : List Char} {n : Nat} (writes : Text.Writes cs n) :
    Part (cs ++ [',']) [.number n, .comma] :=
  have comma : Part [','] [.comma] := .mark (fun _ => ⟨',', [], rfl, rfl, rfl⟩) (by decide)
  .cons (fun _ _ => spell_number writes (endsNumeral_cons (by decide))) comma.continues (single_of_writes writes)

def indexText (index : Option Nat) : List Char :=
  index.elim [] fun n => '[' :: (toString n).toList ++ [']']

theorem continues_index {index : Option Nat} (writable : ∀ n ∈ index, Text.isWritable n = true) :
    Continues (indexText index) (indexKinds index) := by
  cases index with
  | none => exact .nil
  | some n =>
    have close : Part [']'] [.rightBracket] := .mark (fun _ => ⟨']', [], rfl, rfl, rfl⟩) (by decide)
    have writes := Text.Writes.toString_of_isWritable (writable n rfl)
    have number : Part ((toString n).toList ++ [']']) [.number n, .rightBracket] :=
      .cons (fun _ _ => spell_number writes (endsNumeral_cons (by decide))) close.continues (single_of_writes writes)
    have all : Part (['['] ++ ((toString n).toList ++ [']'])) [.leftBracket, .number n, .rightBracket] :=
      .cons (fun _ _ => ⟨'[', [], rfl, rfl, rfl⟩) number.continues (by simp)
    exact all.continues

/-- Neither a number nor a name goes on over an index register. -/
theorem ends_indexText {rest : List Char} (parted : Parted rest) (index : Option Nat) :
    EndsNumeral (indexText index ++ rest) ∧ EndsName (indexText index ++ rest) := by
  cases index with
  | none => exact ⟨parted.endsNumeral, parted.endsName⟩
  | some n => exact ⟨endsNumeral_cons (by decide), endsName_cons rfl⟩

/-- The characters of an address with its star and its index register. -/
theorem toList_address (a : AddressOperand) : a.written.toList =
    (if a.indirect then ['*'] else []) ++ (a.target.written.toList ++ indexText a.index) := by
  have same : ∀ s : String, toString s = s := fun _ => rfl
  unfold AddressOperand.written indexText
  cases a.indirect <;> cases a.index <;> simp [same]

theorem part_address {a : AddressOperand} (named : ∀ name, a.target = .label name → IsName name)
    (writable : ∀ n ∈ Operand.numbers (.address a), Text.isWritable n = true) : Part a.written.toList a.kinds := by
  have target : Part (a.target.written.toList ++ indexText a.index) (a.target.kind :: indexKinds a.index) := by
    cases a with
    | mk target index indirect column =>
      cases target with
      | label name =>
        have registers : ∀ n ∈ index, Text.isWritable n = true := fun n present =>
          writable n (by simp [Operand.numbers, Option.mem_def.mp present])
        have name := named name rfl
        exact .cons (fun _ parted => name.spell (ends_indexText parted index).2) (continues_index registers)
          (single_of_isAlphanum name.isAlphanum)
      | location n =>
        have registers : ∀ n ∈ index, Text.isWritable n = true := fun n present =>
          writable n (by simp [Operand.numbers, Option.mem_def.mp present])
        have writes := Text.Writes.toString_of_isWritable (writable n (by simp [Operand.numbers]))
        exact .cons (fun _ parted => spell_number writes (ends_indexText parted index).1) (continues_index registers)
          (single_of_writes writes)
  rw [toList_address, AddressOperand.kinds]
  cases a.indirect with
  | false => exact target
  | true => exact .cons (fun _ _ => ⟨'*', [], rfl, rfl, rfl⟩) target.continues (by simp)

theorem part_text {s : String} (plain : (Constant.text s).Plain) : Part ("\"" ++ s ++ "\"").toList [.text s] := by
  obtain ⟨-, -, characters⟩ := plain
  have quoteless : '"' ∉ s.toList := fun member => (characters _ member).2.1 rfl
  have returnless : '\r' ∉ s.toList := fun member => absurd (characters _ member).1 (by decide)
  have whole : ("\"" ++ s ++ "\"").toList = '"' :: (s.toList ++ ['"']) := by simp
  rw [whole]
  refine .one (fun rest _ => ?_) ?_
  · have spelled := spell_text quoteless rest
    rwa [String.ofList_toList] at spelled
  · intro c member
    simp only [List.mem_cons, List.mem_append, List.not_mem_nil, or_false] at member
    rcases member with rfl | inside | rfl
    · decide
    · exact ⟨(characters c inside).2.2, fun same => returnless (same ▸ inside)⟩
    · decide

theorem isWritable_natAbs {n : Int} (fits : Word.fits n) : Text.isWritable n.natAbs = true := by
  have range : n.natAbs ≤ 2 ^ 23 := by
    unfold Word.fits Word.minInteger Word.maxInteger at fits
    omega
  have more : 2 ^ 23 < 10 ^ Text.maxDigits :=
    Nat.lt_of_lt_of_le (show 2 ^ 23 < 10 ^ 7 by decide) (Nat.pow_le_pow_right (by decide) (by decide))
  unfold Text.isWritable
  rw [Int.natAbs_natCast]
  exact decide_eq_true (Nat.lt_of_le_of_lt range more)

theorem toString_of_nonneg {n : Int} (positive : 0 ≤ n) : toString n = toString n.natAbs := by
  obtain ⟨m, rfl⟩ := Int.eq_ofNat_of_zero_le positive
  rfl

theorem toString_of_neg {n : Int} (negative : ¬ 0 ≤ n) : toString n = "-" ++ toString n.natAbs := by
  obtain ⟨m, rfl⟩ := Int.eq_negSucc_of_lt_zero (Int.not_le.mp negative)
  rfl

section

variable {n : Int} (fits : Word.fits n)
include fits

theorem part_natAbs : Part (toString n.natAbs).toList [.number n.natAbs] :=
  part_number (Text.Writes.toString_of_isWritable (isWritable_natAbs fits))

theorem part_negative : Part ("-" ++ toString n.natAbs).toList [.minus, .number n.natAbs] := by
  rw [String.toList_append]
  exact .cons (fun _ _ => ⟨'-', [], rfl, rfl, rfl⟩) (part_natAbs fits).continues (by simp)

theorem part_signed : Part (Constant.integer n).written.toList (Constant.integer n).kinds := by
  dsimp only [Constant.written, Constant.kinds]
  by_cases positive : 0 ≤ n
  · have whole : s!"+{n}" = "+" ++ toString n.natAbs := congrArg _ (toString_of_nonneg positive)
    rw [if_pos positive, if_pos positive, whole, String.toList_append]
    exact .cons (fun _ _ => ⟨'+', [], rfl, rfl, rfl⟩) (part_natAbs fits).continues (by simp)
  · have whole : s!"{n}" = "-" ++ toString n.natAbs := toString_of_neg positive
    rw [if_neg positive, if_neg positive, whole]
    exact part_negative fits

/-- An integer is a sign, if it needs one, and digits. -/
theorem part_integer : Part (Constant.integer n).data.toList (Constant.integer n).dataKinds := by
  dsimp only [Constant.data, Constant.dataKinds]
  by_cases positive : 0 ≤ n
  · rw [if_pos positive, toString_of_nonneg positive]
    exact part_natAbs fits
  · rw [if_neg positive, toString_of_neg positive]
    exact part_negative fits

end

theorem part_data {c : Constant} (plain : c.Plain) : Part c.data.toList c.dataKinds := by
  cases c with
  | real x => exact plain.elim
  | integer n => exact part_integer plain
  | text s => exact part_text plain

/-- The text of an operand is one part of a line. -/
theorem part_operand {m : Mnemonic} {o : Operand} (plain : o.Plain m)
    (writable : ∀ n ∈ o.numbers, Text.isWritable n = true) : Part o.written.toList o.kinds := by
  cases o with
  | address a => exact part_address plain writable
  | constant c column =>
    cases c with
    | real x => exact plain.2.elim
    | integer n => exact part_signed plain.2
    | text s => exact part_text plain.2

/-! ## Lines that are written -/

def Content.texts : Content → List String
  | .constant c => [c.data]
  | .statement s => s.name :: (s.accumulator.elim [] fun n => [s!"{n},"]) ++ (s.operand.elim [] fun o => [o.written])

theorem isName_mnemonic (m : Mnemonic) : IsName m.name := by
  have letters : ∃ c tail, m.name.toList = c :: tail ∧ c.isAlpha = true ∧ tail.all Char.isAlphanum = true := by
    cases m <;> exact ⟨_, _, rfl, by decide, by decide⟩
  obtain ⟨c, tail, same, letter, others⟩ := letters
  exact ⟨c, tail, same, letter, List.all_eq_true.mp others⟩

/-- The texts of a word are parts of a line. -/
theorem parts_content {c : Content} (plain : c.Plain) (writable : ∀ n ∈ c.numbers, Text.isWritable n = true) :
    List.Forall₂ Part (c.texts.map String.toList) c.kinds := by
  cases c with
  | constant c => exact .cons (part_data plain) .nil
  | statement s =>
    obtain ⟨nameless, operands⟩ := plain
    have name : s.name = s.mnemonic.name := by simp [Statement.name, nameless]
    rw [Content.texts, Content.kinds, List.cons_append, List.map_cons, List.map_append, name]
    refine .cons (part_name (isName_mnemonic _)) (List.rel_append ?_ ?_)
    · cases present : s.accumulator with
      | none => exact .nil
      | some n =>
        have writes := Text.Writes.toString_of_isWritable (writable n (by simp [Content.numbers, present]))
        have whole : s!"{n},".toList = (toString n).toList ++ [','] := String.toList_append
        refine .cons ?_ .nil
        rw [whole]
        exact part_accumulator writes
    · cases present : s.operand with
      | none => exact .nil
      | some o =>
        refine .cons (part_operand (operands o present) fun n member => writable n ?_) .nil
        simp [Content.numbers, present, member]

def Line.partTexts (l : Line) : List String :=
  (l.location.elim [] fun n => [toString n]) ++ ((l.label.elim [] fun name => [name ++ ":"]) ++
    l.content.elim [] Content.texts)

theorem parts_line {l : Line} (plain : l.Plain) (writable : ∀ n ∈ l.numbers, Text.isWritable n = true) :
    List.Forall₂ Part (l.partTexts.map String.toList) l.kinds := by
  rw [Line.partTexts, Line.kinds, List.map_append, List.map_append]
  refine List.rel_append ?_ (List.rel_append ?_ ?_)
  · cases present : l.location with
    | none => exact .nil
    | some n =>
      have written : (n : Int) ∈ l.numbers := by simp [Line.numbers, present]
      exact .cons (part_number (Text.Writes.toString_of_isWritable (writable n written))) .nil
  · cases present : l.label with
    | none => exact .nil
    | some name =>
      refine .cons ?_ .nil
      rw [String.toList_append]
      exact part_label (plain.label name present)
  · cases present : l.content with
    | none => exact .nil
    | some c =>
      refine parts_content (plain.content c present) fun n member => writable n ?_
      simp [Line.numbers, present, member]

theorem intercalate_append {α : Type} (sep : List α) {xs ys : List (List α)} (before : xs ≠ []) (after : ys ≠ []) :
    sep.intercalate (xs ++ ys) = sep.intercalate xs ++ (sep ++ sep.intercalate ys) := by
  obtain ⟨y, ys, rfl⟩ := List.exists_cons_of_ne_nil after
  induction xs with
  | nil => exact absurd rfl before
  | cons x xs ih =>
    cases xs with
    | nil => simp
    | cons next xs =>
      rw [List.cons_append, List.cons_append, List.intercalate_cons_cons, ← List.cons_append, ih (by simp),
        List.intercalate_cons_cons, List.append_assoc, List.append_assoc, List.append_assoc]

/-- A part that is made of parts with the same separator can be opened. -/
theorem intercalate_opened {α : Type} (sep : List α) (before after : List (List α)) {parts : List (List α)}
    (some : parts ≠ []) :
    sep.intercalate (before ++ sep.intercalate parts :: after) = sep.intercalate (before ++ (parts ++ after)) := by
  have opened : sep.intercalate (sep.intercalate parts :: after) = sep.intercalate (parts ++ after) := by
    by_cases last : after = []
    · simp [last]
    · have first := intercalate_append sep (List.cons_ne_nil (sep.intercalate parts) []) last
      rw [intercalate_append sep some last]
      simpa using first
  by_cases first : before = []
  · simpa [first] using opened
  · rw [intercalate_append sep first (by simp), opened, intercalate_append sep first (by simp [some])]

theorem toList_content (c : Content) : c.written.toList = [' '].intercalate (c.texts.map String.toList) := by
  cases c with
  | constant c => simp [Content.written, Content.texts]
  | statement s =>
    rw [Content.written, Statement.written, String.toList_intercalate]
    rfl

theorem toList_texts (l : Line) :
    (" ".intercalate l.texts).toList = lineOf (l.partTexts.map String.toList) l.comment := by
  have comment : (l.comment.elim [] fun text => [";" ++ text]).map String.toList =
      l.comment.toList.map (';' :: ·.toList) := by
    cases l.comment <;> simp
  have separator : " ".toList = [' '] := rfl
  rw [String.toList_intercalate, lineOf, Line.texts, Line.partTexts, List.map_append, comment, separator]
  cases l.content with
  | none => simp
  | some c =>
    have parts : c.texts.map String.toList ≠ [] := by cases c <;> simp [Content.texts]
    have opened := intercalate_opened [' ']
      (((l.location.elim [] fun n => [toString n]) ++ (l.label.elim [] fun name => [name ++ ":"])).map String.toList)
      (l.comment.toList.map (';' :: ·.toList)) parts
    simpa [toList_content] using opened

/-! ## The line comes back -/

theorem parse_texts {l : Line} (plain : l.Plain) (writable : ∀ n ∈ l.numbers, Text.isWritable n = true)
    (file : String) (number : Int) : ∃ column, Line.parse (" ".intercalate l.texts) file number =
      .ok ⟨.ok { l with number, text := " ".intercalate l.texts, file, content := l.content.map (·.at column) },
        l.remarks file number⟩ :=
  parse_of_parts plain (parts_line plain writable) (toList_texts l) file number

/-- The parser reads a line back from its text, with a column for its operand and a remark about a label that is a
word of the language. Only a number with too many digits keeps a line from being written. -/
theorem parse_written {l : Line} (plain : l.Plain) (file : String) (number : Int) :
    ((∃ text, l.written? = some text) ↔ ∀ n ∈ l.numbers, Text.isWritable n = true) ∧
    ∀ text, l.written? = some text → ∃ column, Line.parse text file number =
      .ok ⟨.ok { l with number, text, file, content := l.content.map (·.at column) }, l.remarks file number⟩ := by
  have writable_iff : l.numbers.all Text.isWritable = true ↔ ∀ n ∈ l.numbers, Text.isWritable n = true :=
    List.all_eq_true
  constructor
  · rw [← writable_iff, Line.written?]
    split <;> simp_all
  · intro text written
    obtain ⟨writable, same⟩ := Option.ite_none_right_eq_some.mp written
    cases same
    exact parse_texts plain (writable_iff.mp writable) file number

def fullLine : Line where
  number := 1
  text := ""
  location := some 10
  label := some "Loop2"
  content := some (.statement ⟨.take, some 12, some (.address ⟨.label "TABLE", some 3, true, 0⟩), none⟩)
  comment := some " again; from 5"
  file := ""

/-- All parts come back, the comment with its semicolon. -/
theorem fullLine_parse_written : fullLine.Plain ∧
    fullLine.written? = some "10 Loop2: TAKE 12, *TABLE[3] ; again; from 5" ∧
    ∃ column, Line.parse "10 Loop2: TAKE 12, *TABLE[3] ; again; from 5" "full" 4 =
      .ok ⟨.ok { fullLine with number := 4, text := "10 Loop2: TAKE 12, *TABLE[3] ; again; from 5", file := "full"
                               content := fullLine.content.map (·.at column) }, fullLine.remarks "full" 4⟩ := by
  have plain : fullLine.Plain := by
    constructor
    case label =>
      rintro _ ⟨⟩
      exact ⟨'L', ['o', 'o', 'p', '2'], rfl, rfl, List.all_eq_true.mp rfl⟩
    case content =>
      rintro _ ⟨⟩
      refine ⟨rfl, ?_⟩
      rintro _ ⟨⟩ _ ⟨⟩
      exact ⟨'T', ['A', 'B', 'L', 'E'], rfl, rfl, List.all_eq_true.mp rfl⟩
    case comment =>
      rintro _ ⟨⟩
      simp
    case located => exact fun _ => Or.inl rfl
  have written : fullLine.written? = some "10 Loop2: TAKE 12, *TABLE[3] ; again; from 5" := by decide +kernel
  exact ⟨plain, written, (parse_written plain "full" 4).2 _ written⟩

end WordMachine.Source
