import WordMachine.Proofs.Source.Parsed
import WordMachine.Proofs.Source.Parts

/-!
# Lines read from their parts

The parser takes each part of a line for what it is: a number is a location only before another part, a name is a
label only before a colon, a number after a mnemonic is an accumulator only before a comma, and a sign belongs to
the number that it touches. So a line comes back from the tokens of its parts, whatever parts it has.
-/
namespace WordMachine.Source

/-! ## Lines that can be read back -/

/-- A name of the language: a letter of ASCII and then letters and digits of ASCII. -/
def IsName (s : String) : Prop :=
  ∃ c tail, s.toList = c :: tail ∧ c.isAlpha = true ∧ ∀ d ∈ tail, d.isAlphanum = true

/-- An integer that fits, or one to four characters of the character set without a quote or a line feed. -/
def Constant.Plain : Constant → Prop
  | .integer n => Word.fits n
  | .text s => 1 ≤ s.length ∧ s.length ≤ Charset.charsPerWord ∧
    ∀ c ∈ s.toList, Charset.supports c = true ∧ c ≠ '"' ∧ c ≠ '\n'
  | .real _ => False

def Operand.Plain (m : Mnemonic) : Operand → Prop
  | .address a => ∀ name, a.target = .label name → IsName name
  | .constant c _ => m.acceptsConstant = true ∧ c.Plain

/-- A constant, or an instruction that is not written with the name of a routine. -/
def Content.Plain : Content → Prop
  | .constant c => c.Plain
  | .statement s => s.routine = none ∧ ∀ o ∈ s.operand, o.Plain s.mnemonic

structure Line.Plain (l : Line) : Prop where
  label : ∀ name ∈ l.label, IsName name
  content : ∀ c ∈ l.content, c.Plain
  comment : ∀ text ∈ l.comment, ∀ c ∈ text.toList, c ≠ '\n' ∧ c ≠ '\r'
  /-- A location stands before something. -/
  located : l.location.isSome = true → l.label.isSome = true ∨ l.content.isSome = true

/-! ## Columns -/

def Operand.at (column : Nat) : Operand → Operand
  | .address a => .address { a with column }
  | .constant c _ => .constant c column

def Content.at (column : Nat) : Content → Content
  | .statement s => .statement { s with operand := s.operand.map (·.at column) }
  | .constant c => .constant c

/-! ## Kinds of tokens -/

def Target.kind : Target → TokenKind
  | .label name => .identifier name
  | .location n => .number n

def indexKinds (index : Option Nat) : List TokenKind :=
  index.elim [] fun n => [.leftBracket, .number n, .rightBracket]

def AddressOperand.kinds (a : AddressOperand) : List TokenKind :=
  (if a.indirect then [.star] else []) ++ a.target.kind :: indexKinds a.index

/-- A constant with its sign. Reals are left aside. -/
def Constant.kinds : Constant → List TokenKind
  | .integer n => [if 0 ≤ n then .plus else .minus, .number n.natAbs]
  | .text s => [.text s]
  | .real _ => []

def Constant.dataKinds : Constant → List TokenKind
  | .integer n => if 0 ≤ n then [.number n.natAbs] else [.minus, .number n.natAbs]
  | c => c.kinds

def Operand.kinds : Operand → List TokenKind
  | .address a => a.kinds
  | .constant c _ => c.kinds

def accumulatorKinds (accumulator : Option Nat) : List (List TokenKind) :=
  accumulator.elim [] fun n => [[.number n, .comma]]

def Content.kinds : Content → List (List TokenKind)
  | .constant c => [c.dataKinds]
  | .statement s => [.identifier s.name] :: (accumulatorKinds s.accumulator ++ (s.operand.elim [] fun o => [o.kinds]))

def Line.kinds (l : Line) : List (List TokenKind) :=
  (l.location.elim [] fun n => [[.number n]]) ++ ((l.label.elim [] fun name => [[.identifier name, .colon]]) ++
    l.content.elim [] Content.kinds)

open Token

/-! ## Reading parts -/

theorem advance_cons {t : Token} {rest : List Token} (more : rest ≠ []) : advance (t :: rest) = rest := by
  cases rest with
  | nil => exact absurd rfl more
  | cons next rest => rfl

/-- What is no sign starts no signed number. -/
theorem signedNumber?_eq_none {tokens : List Token}
    (unsigned : (current tokens).kind ≠ .plus ∧ (current tokens).kind ≠ .minus) :
    signedNumber? tokens = none := by
  unfold signedNumber?
  dsimp only
  split
  · rfl
  · split <;> simp_all

theorem map_kind_of_joined {tokens : List Token} {spaced : Bool} {kinds : List TokenKind}
    (same : tokens.map (fun t => (t.kind, t.spaceBefore)) = joined spaced kinds) :
    tokens.map (·.kind) = kinds := by
  have firsts := congrArg (List.map Prod.fst) same
  cases kinds <;> simpa [joined, Function.comp_def] using firsts

section

variable {comment : Option String} {rest : List Token}

/-- After the parts of a line comes its end, or a comment. -/
theorem Token.Closing.current (closing : Closing comment rest) :
    (current rest).kind = .endOfLine ∨ ∃ text, (Token.current rest).kind = .comment text := by
  cases closing with
  | plain ends => exact Or.inl ends
  | commented marked ends => exact Or.inr ⟨_, marked⟩

theorem index_of_kinds {index : Option Nat} {front : List Token}
    (kinds : front.map (·.kind) = indexKinds index) (closing : Closing comment rest) :
    LineParser.index (front ++ rest) = .ok (index, rest) := by
  cases index with
  | none =>
    obtain rfl : front = [] := List.map_eq_nil_iff.mp kinds
    rcases closing.current with ends | ⟨text, marked⟩ <;> simp [LineParser.index, *]
  | some n =>
    simp only [indexKinds, Option.elim_some, List.map_eq_cons_iff, List.map_eq_nil_iff] at kinds
    obtain ⟨left, _, rfl, opens, number, _, rfl, written, right, _, rfl, closes, rfl⟩ := kinds
    simp [LineParser.index, current, advance_cons, closing.ne_nil, opens, written, closes]

theorem address_of_kinds {a : AddressOperand} {front : List Token} (kinds : front.map (·.kind) = a.kinds)
    (closing : Closing comment rest) (column : Nat) :
    LineParser.address (front ++ rest) column = .ok ({ a with column }, rest) := by
  cases a with
  | mk target index indirect written =>
    cases indirect with
    | false =>
      obtain ⟨name, others, rfl, named, index⟩ := List.map_eq_cons_iff.mp kinds
      have rest := index_of_kinds index closing
      cases target <;>
        simp_all [LineParser.address, Target.kind, current, advance_cons, closing.ne_nil, bind, Except.bind, pure,
          Except.pure]
    | true =>
      obtain ⟨star, _, rfl, starred, kinds⟩ := List.map_eq_cons_iff.mp kinds
      obtain ⟨name, others, rfl, named, index⟩ := List.map_eq_cons_iff.mp kinds
      have rest := index_of_kinds index closing
      cases target <;>
        simp_all [LineParser.address, Target.kind, current, advance_cons, closing.ne_nil, bind, Except.bind, pure,
          Except.pure]

/-- A sign that touches a number starts a signed number. -/
theorem signedNumber?_of_kinds {n : Int} {front : List Token} {spaced : Bool}
    (tokens : front.map (fun t => (t.kind, t.spaceBefore)) =
      joined spaced [if 0 ≤ n then .plus else .minus, .number n.natAbs]) (more : rest ≠ []) :
    signedNumber? (front ++ rest) = some (.integer n, (current (front ++ rest)).column, rest) := by
  simp only [joined, List.map_cons, List.map_nil, List.map_eq_cons_iff, List.map_eq_nil_iff, Prod.mk.injEq] at tokens
  obtain ⟨sign, _, rfl, ⟨signed, -⟩, number, _, rfl, ⟨written, touches⟩, rfl⟩ := tokens
  by_cases positive : 0 ≤ n
  · have size : |n| = n := abs_of_nonneg positive
    rw [if_pos positive] at signed
    simp [signedNumber?, current, second, advance_cons, more, signed, written, touches, size]
  · have size : |n| = -n := abs_of_neg (Int.not_le.mp positive)
    rw [if_neg positive] at signed
    simp [signedNumber?, current, second, advance_cons, more, signed, written, touches, size]

theorem numberConstant_of_fits {n : Int} (fits : Word.fits n) (column : Nat) :
    numberConstant (.integer n) column = .ok (.integer n) := by
  simp [numberConstant, fitting, Word.ofNumber, Word.ofInteger, StoredInteger.encode, fits, Functor.map, Except.map,
    Constant.ofNumber]

theorem textConstant_of_plain {s : String} (plain : (Constant.text s).Plain) (column : Nat) :
    textConstant s column = .ok (.text s) := by
  obtain ⟨some, short, characters⟩ := plain
  have supported : s.toList.find? (fun c => !Charset.supports c) = none := by
    rw [List.find?_eq_none]
    exact fun c member => by simp [(characters c member).1]
  have length : ¬ (s.length = 0 ∨ Charset.charsPerWord < s.length) := by omega
  simp only [textConstant, if_neg length, supported]

theorem operand_of_closing (closing : Closing comment rest) : LineParser.operand rest = .ok (none, rest) := by
  rcases closing.current with ends | ⟨text, marked⟩ <;> simp [LineParser.operand, *]

theorem operand_of_kinds {m : Mnemonic} {o : Operand} (plain : o.Plain m) {front : List Token} {spaced : Bool}
    (tokens : front.map (fun t => (t.kind, t.spaceBefore)) = joined spaced o.kinds)
    (closing : Closing comment rest) :
    ∃ column, LineParser.operand (front ++ rest) = .ok (some (o.at column), rest) := by
  refine ⟨(current (front ++ rest)).column, ?_⟩
  cases o with
  | address a =>
    have kinds := map_kind_of_joined tokens
    have read := address_of_kinds kinds closing (current (front ++ rest)).column
    have first : (current (front ++ rest)).kind = .star ∨
        (current (front ++ rest)).kind = a.target.kind := by
      cases indirect : a.indirect with
      | true =>
        simp only [Operand.kinds, AddressOperand.kinds, indirect, if_true, List.singleton_append] at kinds
        obtain ⟨star, _, rfl, starred, -⟩ := List.map_eq_cons_iff.mp kinds
        exact Or.inl starred
      | false =>
        simp only [Operand.kinds, AddressOperand.kinds, indirect, Bool.false_eq_true, if_false, List.nil_append] at kinds
        obtain ⟨name, _, rfl, named, -⟩ := List.map_eq_cons_iff.mp kinds
        exact Or.inr named
    have unsigned : signedNumber? (front ++ rest) = none :=
      signedNumber?_eq_none (by rcases first with star | named <;> cases target : a.target <;> simp_all [Target.kind])
    unfold LineParser.operand
    rcases first with star | named
    · simp [star, unsigned, read, Operand.at, bind, Except.bind, pure, Except.pure]
    · cases target : a.target <;>
        simp_all [Target.kind, Operand.at, bind, Except.bind, pure, Except.pure]
  | constant c written =>
    cases c with
    | real x => exact plain.2.elim
    | text s =>
      obtain ⟨token, rfl, same⟩ := List.map_eq_singleton_iff.mp (map_kind_of_joined tokens)
      simp [LineParser.operand, current, same, textConstant_of_plain plain.2, advance_cons, closing.ne_nil, Operand.at,
        bind, Except.bind, pure, Except.pure]
    | integer n =>
      have signed := signedNumber?_of_kinds tokens closing.ne_nil
      obtain ⟨sign, number, rfl⟩ : ∃ sign number, front = [sign, number] := by
        have length := congrArg List.length (map_kind_of_joined tokens)
        simpa [Operand.kinds, Constant.kinds, List.length_eq_two] using length
      have kind : sign.kind = if 0 ≤ n then .plus else .minus := by
        have first := congrArg List.head? (map_kind_of_joined tokens)
        simpa [Operand.kinds, Constant.kinds] using first
      unfold LineParser.operand
      have constant := numberConstant_of_fits plain.2 (current (sign :: number :: rest)).column
      split_ifs at kind <;>
        simp_all [current, Operand.at, bind, Except.bind, pure, Except.pure]

theorem accumulator_of_kinds {n : Nat} {front : List Token} (kinds : front.map (·.kind) = [.number n, .comma])
    (more : rest ≠ []) : LineParser.accumulator (front ++ rest) = (some n, rest) := by
  simp only [List.map_eq_cons_iff, List.map_eq_nil_iff] at kinds
  obtain ⟨number, _, rfl, written, comma, _, rfl, parted, rfl⟩ := kinds
  simp [LineParser.accumulator, current, second, advance_cons, more, written, parted]

/-- A number with something but a comment after it and a gap between them is a location. -/
theorem location_eq_some {number : Token} {n : Nat} (written : number.kind = .number n)
    (gap : (current rest).spaceBefore = true) (more : rest ≠ [])
    (followed : (current rest).kind ≠ .endOfLine ∧ ∀ text, (current rest).kind ≠ .comment text) :
    LineParser.location (number :: rest) = (some n, rest) := by
  unfold LineParser.location
  dsimp only [second]
  rw [advance_cons more]
  split
  next ends => exact absurd ends followed.1
  next marked => exact absurd marked (followed.2 _)
  next m same _ _ =>
    have value : TokenKind.number m = .number n := same.symm.trans written
    cases value
    rw [if_pos gap]
  next other _ _ => exact absurd written (other n)

/-- A number is no location at the end of a line or before a comment. -/
theorem location_eq_none {tokens : List Token}
    (other : (∀ n, (current tokens).kind ≠ .number n) ∨ (second tokens).kind = .endOfLine ∨
      ∃ text, (second tokens).kind = .comment text) :
    LineParser.location tokens = (none, tokens) := by
  unfold LineParser.location
  dsimp only
  split
  · rfl
  · rfl
  next n number ends marked =>
    rcases other with numberless | last | ⟨text, last⟩
    · exact absurd number (numberless n)
    · exact absurd last ends
    · exact absurd last (marked text)
  · rfl

/-- Only a number with a comma is an accumulator. -/
theorem accumulator_eq_none {tokens : List Token} (other : (second tokens).kind ≠ .comma) :
    LineParser.accumulator tokens = (none, tokens) := by
  unfold LineParser.accumulator
  split
  next comma => exact absurd comma other
  · rfl

/-- Only a name with a colon is a label. -/
theorem label_eq_none {tokens : List Token}
    (other : (∀ name, (current tokens).kind ≠ .identifier name) ∨ (second tokens).kind ≠ .colon) :
    LineParser.label tokens = (none, tokens) := by
  unfold LineParser.label
  split
  next name named colon =>
    rcases other with nameless | apart
    · exact absurd named (nameless name)
    · exact absurd colon apart
  · rfl

/-- An operand does not start with a colon, and its second token is no comma. -/
theorem head_kinds {m : Mnemonic} {o : Operand} (plain : o.Plain m) : ∃ first others, o.kinds = first :: others ∧
    first ≠ .colon ∧ ∀ kind ∈ others.head?, kind ≠ .comma := by
  cases o with
  | address a =>
    have named : a.target.kind ≠ .colon ∧ a.target.kind ≠ .comma := by cases a.target <;> simp [Target.kind]
    have bracket : ∀ kind ∈ (indexKinds a.index).head?, kind ≠ .comma := by
      cases a.index <;> simp [indexKinds]
    cases indirect : a.indirect with
    | true => exact ⟨.star, _, by simp [Operand.kinds, AddressOperand.kinds, indirect]; rfl, by simp, by simpa using named.2⟩
    | false => exact ⟨_, _, by simp [Operand.kinds, AddressOperand.kinds, indirect], named.1, bracket⟩
  | constant c column =>
    cases c with
    | real x => exact plain.2.elim
    | text s => exact ⟨_, _, rfl, by simp, nofun⟩
    | integer n =>
      refine ⟨_, _, rfl, ?_, by simp⟩
      split <;> simp

theorem second_cons {t : Token} {tokens : List Token} (more : tokens ≠ []) : second (t :: tokens) = current tokens := by
  rw [second, advance_cons more]

theorem Token.Closing.second (closing : Closing comment rest) : (second rest).kind = .endOfLine := by
  cases closing with
  | plain ends => exact ends
  | commented marked ends => exact ends

/-- The first token of a line in parts. -/
theorem Token.InParts.current {spaced : Bool} (first : TokenKind) {others : List TokenKind}
    {more : List (List TokenKind)} {tokens : List Token}
    (inParts : InParts comment spaced ((first :: others) :: more) tokens) :
    (current tokens).kind = first ∧ (current tokens).spaceBefore = spaced := by
  cases inParts with
  | @part _ _ _ front rest same later =>
    obtain ⟨t, others, rfl, mine, -⟩ := List.map_eq_cons_iff.mp same
    exact ⟨congrArg Prod.fst mine, congrArg Prod.snd mine⟩

/-- After a mnemonic comes no colon. -/
theorem current_fields {m : Mnemonic} {accumulator : Option Nat} {operand : Option Operand}
    (plain : ∀ o ∈ operand, o.Plain m) {spaced : Bool} {tokens : List Token}
    (inParts : InParts comment spaced
      (accumulatorKinds accumulator ++ (operand.elim [] fun o => [o.kinds])) tokens) :
    (Token.current tokens).kind ≠ .colon := by
  cases accumulator with
  | some n => simp [(inParts.current (.number n)).1]
  | none =>
    cases operand with
    | some o =>
      obtain ⟨first, others, kinds, apart, -⟩ := head_kinds (plain o rfl)
      simp only [accumulatorKinds, Option.elim_none, Option.elim_some, List.nil_append, kinds] at inParts
      rwa [(inParts.current first).1]
    | none =>
      cases inParts with
      | closing _ closing => rcases closing.current with ends | ⟨text, marked⟩ <;> simp [*]

/-- The second token of the operand is no comma, nor is what follows an operand of one token. -/
theorem second_operand {m : Mnemonic} {operand : Option Operand} (plain : ∀ o ∈ operand, o.Plain m) {spaced : Bool}
    {tokens : List Token} (inParts : InParts comment spaced (operand.elim [] fun o => [o.kinds]) tokens) :
    (second tokens).kind ≠ .comma := by
  cases operand with
  | none =>
    cases inParts with
    | closing _ closing => simp [closing.second]
  | some o =>
    obtain ⟨first, others, kinds, -, apart⟩ := head_kinds (plain o rfl)
    cases inParts with
    | @part _ _ _ front rest same later =>
      cases later with
      | closing _ closing =>
        have same := map_kind_of_joined same
        rw [kinds] at same
        obtain ⟨t, tail, rfl, -, same⟩ := List.map_eq_cons_iff.mp same
        rw [List.cons_append, second_cons (List.append_ne_nil_of_right_ne_nil _ closing.ne_nil)]
        cases tail with
        | nil => rcases closing.current with ends | ⟨text, marked⟩ <;> simp [*]
        | cons u tail =>
          subst same
          exact apart _ rfl

/-- Tokens of the kinds of an operand are read as the operand, at some column. -/
theorem operand_of_tokens {m : Mnemonic} {operand : Option Operand} (plain : ∀ o ∈ operand, o.Plain m) {spaced : Bool}
    {tokens : List Token} (inParts : InParts comment spaced (operand.elim [] fun o => [o.kinds]) tokens) :
    ∃ column rest, LineParser.operand tokens = .ok (operand.map (·.at column), rest) ∧ Closing comment rest := by
  cases operand with
  | none =>
    cases inParts with
    | closing _ closing => exact ⟨0, _, operand_of_closing closing, closing⟩
  | some o =>
    cases inParts with
    | part same later =>
      cases later with
      | closing _ closing =>
        obtain ⟨column, read⟩ := operand_of_kinds (plain o rfl) same closing
        exact ⟨column, _, read, closing⟩

/-- The accumulator and the operand of an instruction. -/
theorem fields_of_tokens {m : Mnemonic} {accumulator : Option Nat} {operand : Option Operand}
    (plain : ∀ o ∈ operand, o.Plain m) {spaced : Bool} {tokens : List Token}
    (inParts : InParts comment spaced
      (accumulatorKinds accumulator ++ (operand.elim [] fun o => [o.kinds])) tokens) :
    ∃ start column rest, LineParser.accumulator tokens = (accumulator, start) ∧
      LineParser.operand start = .ok (operand.map (·.at column), rest) ∧ Closing comment rest := by
  cases accumulator with
  | none =>
    obtain ⟨column, rest, read, closing⟩ := operand_of_tokens plain inParts
    exact ⟨tokens, column, rest, accumulator_eq_none (second_operand plain inParts), read, closing⟩
  | some n =>
    cases inParts with
    | part same later =>
      obtain ⟨column, rest, read, closing⟩ := operand_of_tokens plain later
      exact ⟨_, column, rest, accumulator_of_kinds (map_kind_of_joined same) later.ne_nil, read, closing⟩

/-- No name of a mnemonic is taken by anything else. -/
theorem lookup?_name (m : Mnemonic) : Vocabulary.lookup? m.name = some ⟨m, none⟩ := by
  cases m <;> decide +kernel

/-- Tokens of the kinds of a statement are read as the statement. -/
theorem statement_of_tokens {s : Statement} (plain : (Content.statement s).Plain) {spaced : Bool} {tokens : List Token}
    (inParts : InParts comment spaced (Content.kinds (.statement s)) tokens) :
    ∃ column rest, LineParser.statement s.name tokens =
      .ok ({ s with operand := s.operand.map (·.at column) }, rest) ∧ Closing comment rest := by
  obtain ⟨nameless, operands⟩ := plain
  have name : s.name = s.mnemonic.name := by simp [Statement.name, nameless]
  cases inParts with
  | @part _ _ _ front others same later =>
    obtain ⟨t, rfl, -⟩ := List.map_eq_singleton_iff.mp (map_kind_of_joined same)
    obtain ⟨start, column, rest, accumulator, operand, closing⟩ := fields_of_tokens operands later
    refine ⟨column, rest, ?_, closing⟩
    have advanced : advance ([t] ++ others) = others := advance_cons later.ne_nil
    unfold LineParser.statement
    rw [name, lookup?_name]
    simp only [advanced, accumulator, operand, bind, Except.bind]
    cases written : s.operand with
    | none => simp [nameless, pure, Except.pure]
    | some o =>
      cases o with
      | address a => simp [Operand.at, nameless, pure, Except.pure]
      | constant c place =>
        have accepts := (operands (.constant c place) written).1
        simp [Operand.at, nameless, accepts, pure, Except.pure]

/-- An integer as the word of a line. -/
theorem content_of_integer {n : Int} (fits : Word.fits n) {front : List Token} {spaced : Bool}
    (tokens : front.map (fun t => (t.kind, t.spaceBefore)) = joined spaced (Constant.integer n).dataKinds)
    (closing : Closing comment rest) :
    LineParser.content (front ++ rest) = .ok (some (.constant (.integer n)), rest) := by
  by_cases positive : 0 ≤ n
  · have size : |n| = n := abs_of_nonneg positive
    simp only [Constant.dataKinds, if_pos positive] at tokens
    obtain ⟨number, rfl, written⟩ := List.map_eq_singleton_iff.mp (map_kind_of_joined tokens)
    simp [LineParser.content, current, written, size, numberConstant_of_fits fits, advance_cons, closing.ne_nil,
      Except.map]
  · simp only [Constant.dataKinds, if_neg positive] at tokens
    have minus : [TokenKind.minus, .number n.natAbs] = [if 0 ≤ n then .plus else .minus, .number n.natAbs] := by
      rw [if_neg positive]
    have signed := signedNumber?_of_kinds (minus ▸ tokens) closing.ne_nil
    obtain ⟨sign, _, rfl, first, -⟩ := List.map_eq_cons_iff.mp (map_kind_of_joined tokens)
    rw [LineParser.content]
    simp only [List.cons_append, current, List.headD_cons, first] at signed ⊢
    rw [signed]
    simp [numberConstant_of_fits fits, bind, Except.bind, pure, Except.pure]

/-- Tokens of the kinds of a word are read as the word. -/
theorem content_of_tokens {content : Option Content} (plain : ∀ c ∈ content, c.Plain) {spaced : Bool}
    {tokens : List Token} (inParts : InParts comment spaced (content.elim [] Content.kinds) tokens) :
    ∃ column rest, LineParser.content tokens = .ok (content.map (·.at column), rest) ∧ Closing comment rest := by
  cases content with
  | none =>
    cases inParts with
    | closing _ closing =>
      refine ⟨0, _, ?_, closing⟩
      rcases closing.current with ends | ⟨text, marked⟩ <;> simp [LineParser.content, *]
  | some c =>
    cases c with
    | statement s =>
      obtain ⟨column, rest, read, closing⟩ := statement_of_tokens (plain _ rfl) inParts
      have first := (inParts.current (.identifier s.name)).1
      refine ⟨column, rest, ?_, closing⟩
      simp [LineParser.content, first, read, Content.at, bind, Except.bind, pure, Except.pure]
    | constant c =>
      cases inParts with
      | @part _ _ _ front others same later =>
        cases later with
        | closing _ closing =>
          refine ⟨0, _, ?_, closing⟩
          cases c with
          | real x => exact (plain _ rfl).elim
          | integer n => exact content_of_integer (plain _ rfl) same closing
          | text s =>
            obtain ⟨token, rfl, written⟩ := List.map_eq_singleton_iff.mp (map_kind_of_joined same)
            simp [LineParser.content, current, written, textConstant_of_plain (plain _ rfl), advance_cons,
              closing.ne_nil, Content.at, Except.map]

/-! ## Reading lines -/

/-- The word of a line starts with a number that closes the line, with a name without a colon, or with neither a
number nor a name. -/
theorem opening_of_content {content : Option Content} (plain : ∀ c ∈ content, c.Plain) {spaced : Bool}
    {tokens : List Token} (inParts : InParts comment spaced (content.elim [] Content.kinds) tokens) :
    ((∀ name, (current tokens).kind ≠ .identifier name) ∧
      ((∀ n, (current tokens).kind ≠ .number n) ∨ (second tokens).kind = .endOfLine ∨
        ∃ text, (second tokens).kind = .comment text)) ∨
    ((∀ n, (current tokens).kind ≠ .number n) ∧ (second tokens).kind ≠ .colon) := by
  cases content with
  | none =>
    cases inParts with
    | closing _ closing => rcases closing.current with ends | ⟨text, marked⟩ <;> simp [*]
  | some c =>
    cases c with
    | constant c =>
      refine Or.inl ?_
      cases c with
      | real x => exact (plain _ rfl).elim
      | text s => simp [(inParts.current (.text s)).1]
      | integer n =>
        by_cases positive : 0 ≤ n
        · simp only [Option.elim_some, Content.kinds, Constant.dataKinds, if_pos positive] at inParts
          refine ⟨by simp [(inParts.current (.number n.natAbs)).1], Or.inr ?_⟩
          cases inParts with
          | @part _ _ _ front others same later =>
            cases later with
            | closing _ closing =>
              obtain ⟨t, rfl, -⟩ := List.map_eq_singleton_iff.mp (map_kind_of_joined same)
              rw [List.singleton_append, second_cons closing.ne_nil]
              exact closing.current
        · simp only [Option.elim_some, Content.kinds, Constant.dataKinds, if_neg positive] at inParts
          simp [(inParts.current .minus).1]
    | statement s =>
      refine Or.inr ⟨by simp [(inParts.current (.identifier s.name)).1], ?_⟩
      cases inParts with
      | @part _ _ _ front others same later =>
        obtain ⟨t, rfl, -⟩ := List.map_eq_singleton_iff.mp (map_kind_of_joined same)
        rw [List.singleton_append, second_cons later.ne_nil]
        exact current_fields (plain _ rfl).2 later

/-- The first token of the word of a line does not close the line. -/
theorem head_content {c : Content} (plain : c.Plain) : ∃ first others more, c.kinds = (first :: others) :: more ∧
    first ≠ .endOfLine ∧ ∀ text, first ≠ .comment text := by
  cases c with
  | statement s => exact ⟨_, _, _, rfl, by simp, by simp⟩
  | constant c =>
    cases c with
    | real x => exact plain.elim
    | text s => exact ⟨_, _, _, rfl, by simp, by simp⟩
    | integer n =>
      by_cases positive : 0 ≤ n
      · exact ⟨_, _, _, by rw [Content.kinds, Constant.dataKinds, if_pos positive], by simp, by simp⟩
      · exact ⟨_, _, _, by rw [Content.kinds, Constant.dataKinds, if_neg positive], by simp, by simp⟩

theorem label_of_content {content : Option Content} (plain : ∀ c ∈ content, c.Plain) {spaced : Bool}
    {tokens : List Token} (inParts : InParts comment spaced (content.elim [] Content.kinds) tokens) :
    LineParser.label tokens = (none, tokens) := by
  apply label_eq_none
  rcases opening_of_content plain inParts with ⟨nameless, -⟩ | ⟨-, apart⟩
  · exact Or.inl nameless
  · exact Or.inr apart

theorem location_of_content {content : Option Content} (plain : ∀ c ∈ content, c.Plain) {spaced : Bool}
    {tokens : List Token} (inParts : InParts comment spaced (content.elim [] Content.kinds) tokens) :
    LineParser.location tokens = (none, tokens) := by
  apply location_eq_none
  rcases opening_of_content plain inParts with ⟨-, last⟩ | ⟨numberless, -⟩
  · exact last
  · exact Or.inl numberless

/-- A label, or without one the word of the line. -/
theorem label_of_tokens {label : Option String} {content : Option Content} (plain : ∀ c ∈ content, c.Plain)
    {spaced : Bool} {tokens : List Token}
    (inParts : InParts comment spaced
      ((label.elim [] fun name => [[.identifier name, .colon]]) ++ content.elim [] Content.kinds) tokens) :
    ∃ spaced rest, LineParser.label tokens = (label, rest) ∧
      InParts comment spaced (content.elim [] Content.kinds) rest := by
  cases label with
  | none => exact ⟨spaced, tokens, label_of_content plain inParts, inParts⟩
  | some name =>
    cases inParts with
    | @part _ _ _ front others same later =>
      have kinds := map_kind_of_joined same
      simp only [List.map_eq_cons_iff, List.map_eq_nil_iff] at kinds
      obtain ⟨first, _, rfl, named, colon, _, rfl, marked, rfl⟩ := kinds
      refine ⟨true, others, ?_, later⟩
      simp [LineParser.label, current, second, advance_cons, later.ne_nil, named, marked]

/-- A location before a label or a word. -/
theorem location_of_tokens {location : Option Nat} {label : Option String} {content : Option Content}
    (plain : ∀ c ∈ content, c.Plain)
    (located : location.isSome = true → label.isSome = true ∨ content.isSome = true) {tokens : List Token}
    (inParts : InParts comment false
      ((location.elim [] fun n => [[.number n]]) ++ ((label.elim [] fun name => [[.identifier name, .colon]]) ++
        content.elim [] Content.kinds)) tokens) :
    ∃ spaced rest, LineParser.location tokens = (location, rest) ∧
      InParts comment spaced
        ((label.elim [] fun name => [[.identifier name, .colon]]) ++ content.elim [] Content.kinds) rest := by
  cases location with
  | none =>
    refine ⟨false, tokens, ?_, inParts⟩
    cases label with
    | none => exact location_of_content plain inParts
    | some name =>
      apply location_eq_none
      exact Or.inl (by simp [(inParts.current (.identifier name)).1])
  | some n =>
    cases inParts with
    | @part _ _ _ front others same later =>
      obtain ⟨t, rfl, written⟩ := List.map_eq_singleton_iff.mp (map_kind_of_joined same)
      refine ⟨true, others, ?_, later⟩
      have head : ∃ first more rest, ((label.elim [] fun name => [[TokenKind.identifier name, .colon]]) ++
          content.elim [] Content.kinds) = (first :: more) :: rest ∧
          first ≠ .endOfLine ∧ ∀ text, first ≠ .comment text := by
        cases label with
        | some name => exact ⟨_, _, _, rfl, by simp, by simp⟩
        | none =>
          cases content with
          | none => simp at located
          | some c => exact head_content (plain c rfl)
      obtain ⟨first, more, rest, kinds, opened, unmarked⟩ := head
      obtain ⟨kind, gap⟩ := (kinds ▸ later).current first
      exact location_eq_some written gap later.ne_nil (kind ▸ ⟨opened, unmarked⟩)

theorem comment_of_closing (closing : Closing comment rest) : LineParser.comment rest = .ok comment := by
  cases closing with
  | plain ends => simp [LineParser.comment, current, ends]
  | commented marked ends => simp [LineParser.comment, current, advance, marked, ends]

end

/-- What is remarked about a line: that its label is the name of a mnemonic or a routine. -/
def Line.remarks (l : Line) (file : String) (number : Int) : List Warning :=
  l.label.elim [] fun name => if Vocabulary.knows name then [.shadowedMnemonic file number name] else []

/-- The parser makes the line of the tokens of its parts. -/
theorem ofTokens_of_parts {l : Line} (plain : l.Plain) {tokens : List Token}
    (inParts : InParts l.comment false l.kinds tokens) (text file : String) (number : Int) :
    ∃ column, Line.ofTokens tokens text file number =
      ⟨.ok { l with number, text, file, content := l.content.map (·.at column) }, l.remarks file number⟩ := by
  obtain ⟨_, afterLocation, location, inParts⟩ := location_of_tokens plain.content plain.located inParts
  obtain ⟨_, afterLabel, label, inParts⟩ := label_of_tokens plain.content inParts
  obtain ⟨column, rest, content, closing⟩ := content_of_tokens plain.content inParts
  refine ⟨column, ?_⟩
  cases named : l.label <;>
    simp [Line.ofTokens, location, label, content, comment_of_closing closing, Line.remarks, named, bind, Except.bind,
      pure, Except.pure, Except.mapError]

/-- A text whose parts spell the tokens of a line is read as that line. -/
theorem parse_of_parts {l : Line} (plain : l.Plain) {text : String} {texts : List (List Char)}
    (parts : List.Forall₂ Part texts l.kinds) (characters : text.toList = lineOf texts l.comment) (file : String)
    (number : Int) :
    ∃ column, Line.parse text file number =
      .ok ⟨.ok { l with number, text, file, content := l.content.map (·.at column) }, l.remarks file number⟩ := by
  have single := single_lineOf parts plain.comment
  rw [← characters] at single
  obtain ⟨tokens, read, inParts⟩ := ofLine_of_parts parts plain.comment characters
  obtain ⟨column, made⟩ := ofTokens_of_parts plain inParts text file number
  exact ⟨column, made ▸ Line.parse_of_tokens (fun member => (single '\r' member).2 rfl) read file number⟩

end WordMachine.Source
