import WordMachine.Proofs.Source.Complaints

/-!
# Where an operand starts

A line is read from its first token on: its location, its label, the name of an instruction, its accumulator, and then
its operand. Each of these takes tokens of its own and leaves the others (`Passes`), so the tokens of an operand are
known from those before it, and the column that the operand keeps is that of the first of them. At this column the line
shows the star of the operand, or what the operand names if it has none.
-/
namespace WordMachine.Source

open Token

/-- The kinds of the tokens before the operand of an instruction, which is written with some name. -/
def Line.leadKinds (l : Line) (name : String) (s : Statement) : List TokenKind :=
  l.location.toList.map .number ++ (l.label.toList.flatMap fun label => [.identifier label, .colon])
    ++ [.identifier name] ++ (accumulatorKinds s.accumulator).flatten

/-- Where the operand of an instruction stands on the line that it was read from. -/
structure OperandAt (text : String) (line : Line) (s : Statement) (a : AddressOperand) : Prop where
  /-- Its tokens follow those of the location, the label, the instruction and the accumulator, and the first of them
  stands at its column. -/
  tokens : ∃ name before operand after, ofLine symbolicRules text = .ok (before ++ operand ++ after) ∧
    before.map (·.kind) = line.leadKinds name s ∧ operand.map (·.kind) = a.kinds ∧
    operand.head?.map (·.column) = some a.column
  /-- At the column stands the star, or the label of an operand without one. -/
  shown : ∀ label, a.target = .label label → ∃ before after, a.column = before.length + 1 ∧
    text.toList = before ++ (if a.indirect then "*" else label).toList ++ after

/-! ## What tokens show -/

def TokenKind.spelling? : TokenKind → Option String
  | .identifier name => some name
  | .plus => some "+"
  | .minus => some "-"
  | .star => some "*"
  | .comma => some ","
  | .colon => some ":"
  | .leftBracket => some "["
  | .rightBracket => some "]"
  | .unknown c => some c.toString
  | _ => none

theorem spelling?_of_numeral {n : Numeral} {kind : TokenKind} (made : n.kind = .ok kind) : kind.spelling? = none := by
  unfold Numeral.kind at made
  split at made
  · split at made <;> cases made
    rfl
  · dsimp only at made
    split at made <;> cases made
    rfl

theorem spelling?_of_scanText (rules : LexicalRules) (rest : List Char) :
    (scanText rules rest).1.spelling? = none := by
  unfold scanText
  dsimp only
  split <;> rfl

theorem spelling?_of_octalWord? {rest : List Char} {kind : TokenKind} (found : octalWord? rest = some kind) :
    kind.spelling? = none := by
  unfold octalWord? at found
  split at found
  · dsimp only at found
    split at found <;> cases found
    rfl
  · cases found

theorem spelling?_punctuation (c : Char) :
    ((punctuation? c).getD (.unknown c)).spelling? = some (String.ofList [c]) := by
  unfold punctuation?
  split <;> rfl

theorem spelling?_of_scan {rules : LexicalRules} {c : Char} {rest : List Char} {kind : TokenKind} {n : Nat}
    (taken : scan rules c rest = .ok (kind, n)) {shown : String} (spells : kind.spelling? = some shown) :
    String.ofList (c :: rest.take n) = shown := by
  cases scanned_of_scan taken with
  | comment => cases spells
  | text =>
    rw [spelling?_of_scanText] at spells
    cases spells
  | octal word =>
    rw [spelling?_of_octalWord? word] at spells
    cases spells
  | numeral made =>
    rw [spelling?_of_numeral made] at spells
    cases spells
  | name =>
    cases spells
    rw [← List.prefix_iff_eq_take.mp (List.takeWhile_prefix _)]
  | mark =>
    rw [spelling?_punctuation] at spells
    cases spells
    rfl

/-- A token shows the characters that its kind tells. -/
theorem text_of_scanAll {rules : LexicalRules} {cs : List Char} {column : Nat} {spaced : Bool} {tokens : List Token}
    (scanned : scanAll rules cs column spaced = .ok tokens) :
    ∀ t ∈ tokens, ∀ shown, t.kind.spelling? = some shown → t.text = shown := by
  fun_induction scanAll rules cs column spaced generalizing tokens with
  | case1 =>
    cases scanned
    intro t member shown spells
    rw [List.mem_singleton.mp member] at spells
    cases spells
  | case2 column spaced c rest blank ih => exact ih scanned
  | case3 column spaced c rest visible ih =>
    obtain ⟨⟨kind, n⟩, taken, read⟩ := bind_eq_ok_iff.mp scanned
    obtain ⟨others, later, made⟩ := bind_eq_ok_iff.mp read
    cases made
    exact List.forall_mem_cons.mpr ⟨fun shown spells => spelling?_of_scan taken spells, ih n later⟩

/-- A line has the text of a token at its column. -/
theorem exists_text_of_covers {text : String} {tokens : List Token} {t : Token} (covers : Covers text.toList 1 tokens)
    (inside : TokensOnLine text.length tokens) (member : t ∈ tokens) :
    ∃ before after, t.column = before.length + 1 ∧ text.toList = before ++ t.text.toList ++ after := by
  obtain ⟨low, high⟩ := inside t member
  refine ⟨text.toList.take (t.column - 1), (text.toList.drop (t.column - 1)).drop (t.next - t.column), ?_, ?_⟩
  · rw [List.length_take, String.length_toList]
    omega
  · rw [covers.slice t member, between, List.append_assoc, List.take_append_drop, List.take_append_drop]

/-! ## What parts of a line read -/

/-- The tokens go up to the end of the line, and not beyond it. -/
def Closed (tokens : List Token) : Prop :=
  ∃ before last, tokens = before ++ [last] ∧ last.kind = .endOfLine ∧ ∀ t ∈ before, t.kind ≠ .endOfLine

/-- Tokens of some kinds were read, and the others up to the end of the line are left. -/
structure Passes (kinds : List TokenKind) (tokens rest : List Token) : Prop where
  split : ∃ front, tokens = front ++ rest ∧ front.map (·.kind) = kinds
  closed : Closed rest

section

variable {kinds more : List TokenKind} {tokens middle rest : List Token}

theorem Passes.refl (closed : Closed tokens) : Passes [] tokens tokens :=
  ⟨⟨[], rfl, rfl⟩, closed⟩

theorem Passes.trans (first : Passes kinds tokens middle) (second : Passes more middle rest) :
    Passes (kinds ++ more) tokens rest := by
  obtain ⟨front, rfl, read⟩ := first.split
  obtain ⟨next, rfl, later⟩ := second.split
  exact ⟨⟨front ++ next, by rw [List.append_assoc], by rw [List.map_append, read, later]⟩, second.closed⟩

/-- The parser steps over a token that is not the end of the line. -/
theorem Closed.passes {kind : TokenKind} (closed : Closed tokens) (first : (current tokens).kind = kind)
    (further : kind ≠ .endOfLine) : Passes [kind] tokens (advance tokens) := by
  obtain ⟨_ | ⟨t, before⟩, last, rfl, ends, inner⟩ := closed
  · exact absurd (first.symm.trans ends) further
  · rw [List.cons_append, advance_cons (by simp)]
    refine ⟨⟨[t], rfl, congrArg (fun kind => [kind]) first⟩, before, last, rfl, ends, fun u member => ?_⟩
    exact inner u (List.mem_cons_of_mem t member)

/-- The parser steps over two tokens. -/
theorem Closed.passes_two {kind next : TokenKind} (closed : Closed tokens) (first : (current tokens).kind = kind)
    (further : kind ≠ .endOfLine) (second : (second tokens).kind = next) (beyond : next ≠ .endOfLine) :
    Passes [kind, next] tokens (advance (advance tokens)) :=
  have one := closed.passes first further
  one.trans (one.closed.passes second beyond)

variable (closed : Closed tokens)
include closed

theorem passes_location :
    Passes ((LineParser.location tokens).1.toList.map .number) tokens (LineParser.location tokens).2 := by
  unfold LineParser.location
  dsimp only
  split
  · exact .refl closed
  · exact .refl closed
  next first _ _ =>
    split
    · exact closed.passes first nofun
    · exact .refl closed
  · exact .refl closed

theorem passes_label :
    Passes ((LineParser.label tokens).1.toList.flatMap fun label => [.identifier label, .colon]) tokens
      (LineParser.label tokens).2 := by
  unfold LineParser.label
  split
  next first second => exact closed.passes_two first nofun second nofun
  · exact .refl closed

theorem passes_accumulator :
    Passes (accumulatorKinds (LineParser.accumulator tokens).1).flatten tokens (LineParser.accumulator tokens).2 := by
  unfold LineParser.accumulator
  split
  next first second => exact closed.passes_two first nofun second nofun
  · exact .refl closed

theorem passes_index {index : Option Nat} (read : LineParser.index tokens = .ok (index, rest)) :
    Passes (indexKinds index) tokens rest := by
  unfold LineParser.index at read
  dsimp only at read
  split at read
  next opens =>
    split at read
    next inside =>
      have two := closed.passes_two opens nofun inside nofun
      split at read
      next closes =>
        cases read
        exact two.trans (two.closed.passes closes nofun)
      · cases read
    · cases read
  · cases read
    exact .refl closed

theorem passes_target {target : Target} (read : LineParser.target tokens = .ok target) :
    Passes [target.kind] tokens (advance tokens) := by
  unfold LineParser.target at read
  split at read
  next first =>
    cases read
    exact closed.passes first nofun
  next first =>
    cases read
    exact closed.passes first nofun
  · exact absurd read unexpected_ne_ok

theorem passes_starless {indirect : Bool} {column : Nat} {a : AddressOperand}
    (read : LineParser.starless indirect column tokens = .ok (a, rest)) :
    a.indirect = indirect ∧ a.column = column ∧ Passes (a.target.kind :: indexKinds a.index) tokens rest := by
  obtain ⟨target, named, read⟩ := bind_eq_ok_iff.mp read
  obtain ⟨⟨index, left⟩, indexed, made⟩ := bind_eq_ok_iff.mp read
  cases made
  have one := passes_target closed named
  exact ⟨rfl, rfl, one.trans (passes_index one.closed indexed)⟩

/-- An address takes the tokens of its kinds. -/
theorem passes_address {column : Nat} {a : AddressOperand} (read : LineParser.address tokens column = .ok (a, rest)) :
    a.column = column ∧ Passes a.kinds tokens rest := by
  rw [address_eq_starless] at read
  unfold AddressOperand.kinds
  split at read
  next star =>
    have one := closed.passes star nofun
    obtain ⟨starred, place, passes⟩ := passes_starless one.closed read
    rw [starred]
    exact ⟨place, one.trans passes⟩
  · obtain ⟨bare, place, passes⟩ := passes_starless closed read
    rw [bare]
    exact ⟨place, passes⟩

/-- An operand that names a location is read from where it starts. -/
theorem passes_operand {a : AddressOperand} (read : LineParser.operand tokens = .ok (some (.address a), rest)) :
    a.column = (current tokens).column ∧ Passes a.kinds tokens rest := by
  unfold LineParser.operand at read
  dsimp only at read
  split at read
  · cases read
  · cases read
  · obtain ⟨_, -, made⟩ := bind_eq_ok_iff.mp read
    cases made
  · cases read
  · split at read
    · obtain ⟨_, -, made⟩ := bind_eq_ok_iff.mp read
      cases made
    · obtain ⟨_, addressed, made⟩ := bind_eq_ok_iff.mp read
      cases made
      exact passes_address closed addressed

/-- The name and the accumulator of an instruction are read first, and then its operand, but for the one that a call
of a routine has by its name. -/
theorem passes_statement {name : String} {s : Statement} (named : (current tokens).kind = .identifier name)
    (read : LineParser.statement name tokens = .ok (s, rest)) :
    ∃ middle, Passes ([.identifier name] ++ (accumulatorKinds s.accumulator).flatten) tokens middle ∧
      ∀ a, s.operand = some (.address a) → s.routine = none →
        a.column = (current middle).column ∧ Passes a.kinds middle rest := by
  unfold LineParser.statement at read
  split at read
  · cases read
  · have one := closed.passes named nofun
    have lead := one.trans (passes_accumulator one.closed)
    obtain ⟨⟨found, left⟩, parsed, read⟩ := bind_eq_ok_iff.mp read
    dsimp only at read
    split at read
    · cases read
    · cases read
      exact ⟨_, lead, nofun⟩
    · split at read
      · cases read
        exact ⟨_, lead, nofun⟩
      · cases read
    · cases read
      refine ⟨_, lead, fun a operand _ => ?_⟩
      dsimp only at operand
      subst operand
      exact passes_operand lead.closed parsed

/-- A word takes the tokens of its name and its accumulator, then those of its operand. -/
theorem passes_content {s : Statement} (read : LineParser.content tokens = .ok (some (.statement s), rest)) :
    ∃ name middle, Passes ([.identifier name] ++ (accumulatorKinds s.accumulator).flatten) tokens middle ∧
      ∀ a, s.operand = some (.address a) → s.routine = none →
        a.column = (current middle).column ∧ Passes a.kinds middle rest := by
  unfold LineParser.content at read
  dsimp only at read
  split at read
  · cases read
  · cases read
  next name named =>
    obtain ⟨⟨found, left⟩, parsed, made⟩ := bind_eq_ok_iff.mp read
    cases made
    exact ⟨name, passes_statement closed named parsed⟩
  · obtain ⟨_, -, made⟩ := map_eq_ok_iff.mp read
    cases made
  · obtain ⟨_, -, made⟩ := map_eq_ok_iff.mp read
    cases made
  · obtain ⟨_, -, made⟩ := map_eq_ok_iff.mp read
    cases made
  · split at read
    · obtain ⟨_, -, made⟩ := bind_eq_ok_iff.mp read
      cases made
    · exact absurd read unexpected_ne_ok

end

/-! ## Lines -/

/-- The first token of an operand is its star, or what it names. -/
theorem exists_kinds_cons (a : AddressOperand) :
    ∃ others, a.kinds = (if a.indirect then .star else a.target.kind) :: others := by
  unfold AddressOperand.kinds
  split <;> exact ⟨_, rfl⟩

/-- The tokens of a line cover it, and those that spell themselves do so with their characters. -/
theorem covers_of_ofLine {rules : LexicalRules} {text : String} {tokens : List Token}
    (scanned : ofLine rules text = .ok tokens) :
    Covers text.toList 1 tokens ∧ ∀ t ∈ tokens, ∀ shown, t.kind.spelling? = some shown → t.text = shown := by
  unfold ofLine at scanned
  split at scanned
  · cases scanned
  · have laid := laid_of_scanAll scanned [] (by simp) rfl rfl
    exact ⟨laid.covers [] rfl, text_of_scanAll scanned⟩

/-- The operand of an instruction stands on its line where the instruction says. -/
theorem operandAt_of_ofTokens {text file : String} {number : Int} {tokens : List Token} {line : Line} {s : Statement}
    {a : AddressOperand} (scanned : ofLine symbolicRules text = .ok tokens)
    (read : (Line.ofTokens tokens text file number).value = .ok line) (present : line.content = some (.statement s))
    (operand : s.operand = some (.address a)) (own : s.routine = none) : OperandAt text line s a := by
  obtain ⟨covers, shown⟩ := covers_of_ofLine scanned
  obtain ⟨before, last, whole, ends, -, inner⟩ := covers.ends
  obtain ⟨content, rest, comment, written, -, rfl⟩ := ofTokens_eq_ok_iff.mp read
  dsimp only at present
  subst present
  have located := passes_location ⟨before, last, whole, ends, inner⟩
  have labelled := passes_label located.closed
  obtain ⟨name, middle, lead, operands⟩ := passes_content labelled.closed written
  obtain ⟨place, passes⟩ := operands a operand own
  -- the tokens are those before the operand, those of the operand, and the rest
  obtain ⟨front, split, kinds⟩ := ((located.trans labelled).trans lead).split
  obtain ⟨here, rfl, mine⟩ := passes.split
  obtain ⟨others, opening⟩ := exists_kinds_cons a
  obtain ⟨t, later, rfl, first, -⟩ := List.map_eq_cons_iff.mp (mine.trans opening)
  have column : a.column = t.column := place
  have member : t ∈ tokens := by simp [split]
  constructor
  case tokens =>
    refine ⟨name, front, t :: later, rest, ?_, ?_, mine, ?_⟩
    · rw [scanned, split, List.append_assoc]
    · simp only [kinds, Line.leadKinds, List.append_assoc]
    · rw [column]
      rfl
  case shown =>
    intro label named
    have text_eq : t.text = if a.indirect then "*" else label := by
      refine shown t member _ ?_
      rw [first, named]
      split <;> rfl
    rw [column, ← text_eq]
    exact exists_text_of_covers covers (tokensOnLine_of_ofLine scanned) member

end WordMachine.Source
