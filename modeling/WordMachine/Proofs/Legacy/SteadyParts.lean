import WordMachine.Legacy.LineParser
import WordMachine.Proofs.Legacy.TrailingText

/-!
# Parts of a line before a comment

A comment of the legacy dialect has no mark, so its tokens stand among those that the parser looks at. But where the
parser takes one token with the next, it asks whether a blank stands between them, and the comment begins with one. So
each part of a line is read from the same tokens with the comment as without it (`Steady`). The one exception is the
digit two: as the last token it is an address, and with anything after it it is an accumulator (`Content.Ambiguous`).
-/
namespace WordMachine.Legacy

open Source Source.Token

/-! ## Tokens -/

/-- The token touches the one before it. -/
def Touches (t : Token) (kind : TokenKind) : Prop :=
  t.kind = kind ∧ !t.spaceBefore

/-- The tokens are those of a comment, after a line of some width and a blank. -/
structure Trails (comment : List Char) (width : Nat) (more : List Token) : Prop where
  ne_nil : more ≠ []
  first : comment = [] ∧ (current more).kind = .endOfLine ∨
    (current more).kind ≠ .endOfLine ∧ (current more).column = width + 2 ∧ (current more).spaceBefore = true

section

variable {comment : List Char} {more tokens tokens' rest : List Token} {width : Nat} {broken : Bool}

theorem Trails.not_touches (trails : Trails comment width more) {kind : TokenKind} (further : kind ≠ .endOfLine) :
    ¬ Touches (current more) kind := by
  rintro ⟨same, glued⟩
  rcases trails.first with ⟨-, ends⟩ | ⟨-, -, spaced⟩
  · exact further (same.symm.trans ends)
  · rw [spaced] at glued
    cases glued

variable (trails : Trails comment width more) (longer : Extends more width broken tokens tokens')

namespace Extends

include longer in
/-- The first token is the same in both, unless the line has ended and the comment begins. -/
theorem current_cases :
    current tokens' = current tokens ∨ (current tokens).kind = .endOfLine ∧ tokens' = more := by
  cases longer with
  | ended ends => exact Or.inr ⟨ends, rfl⟩
  | unclosed => exact Or.inl rfl
  | token => exact Or.inl rfl

include longer in
/-- Before its end the line goes on with one and the same token. -/
theorem current_eq (further : (current tokens).kind ≠ .endOfLine) : current tokens' = current tokens :=
  longer.current_cases.resolve_right fun ended => further ended.1

include trails longer

theorem ne_nil : tokens ≠ [] ∧ tokens' ≠ [] := by
  cases longer with
  | ended => exact ⟨by simp, trails.ne_nil⟩
  | unclosed => simp
  | token => simp

theorem advance (inner : (current tokens).kind.isInner = true) :
    Extends more width broken (Token.advance tokens) (Token.advance tokens') := by
  cases longer with
  | @ended last ends =>
    have kind : (current [last]).kind = .endOfLine := ends
    rw [kind] at inner
    cases inner
  | @unclosed t content opens inside others =>
    have kind : (current (t :: others)).kind = .openText content := opens
    rw [kind] at inner
    cases inner
  | token inner inside others =>
    rw [advance_cons (others.ne_nil trails).1, advance_cons (others.ne_nil trails).2]
    exact others

theorem advance_of_kind {kind : TokenKind} (first : (current tokens).kind = kind) (inner : kind.isInner = true) :
    Extends more width broken (Token.advance tokens) (Token.advance tokens') :=
  longer.advance trails (first ▸ inner)

/-- The comment changes nothing about what touches. -/
theorem touches_iff (kind : TokenKind) (further : kind ≠ .endOfLine) :
    Touches (current tokens') kind ↔ Touches (current tokens) kind := by
  rcases longer.current_cases with same | ⟨ends, rfl⟩
  · rw [same]
  · exact iff_of_false (trails.not_touches further) fun touches => further (touches.1.symm.trans ends)

end Extends

/-! ## Constants -/

theorem signedNumber?_of_outer (outer : ¬ (current tokens).kind.isInner = true) : signedNumber? tokens = none := by
  rw [signedNumber?_eq_signed?]
  cases signed : signed? (current tokens).kind (second tokens).kind with
  | none => simp
  | some value => exact absurd (isInner_of_signed? signed).1 outer

theorem constant?_of_ends (ends : (current tokens).kind = .endOfLine) : LineParser.constant? tokens = .ok none := by
  simp [LineParser.constant?, ends, signedNumber?_of_closes (Or.inl (Or.inl ends))]

theorem constant?_of_number {n : Nat} (number : (current tokens).kind = .number n) :
    LineParser.constant? tokens = .ok none := by
  simp [LineParser.constant?, signedNumber?_eq_signed?, number, signed?]

include trails longer

/-- A line goes on with one signed number, with the comment as without it, or with none. -/
theorem signedNumber?_extends (further : (current tokens).kind ≠ .endOfLine) :
    (signedNumber? tokens = none ∧ signedNumber? tokens' = none) ∨
      ∃ value column rest rest', signedNumber? tokens = some (value, column, rest) ∧
        signedNumber? tokens' = some (value, column, rest') ∧ Extends more width broken rest rest' := by
  have first := longer.current_eq further
  by_cases inner : (current tokens).kind.isInner = true
  · have after := longer.advance trails inner
    rcases after.current_cases with same | ⟨ends, left⟩
    · have next : second tokens' = second tokens := same
      rw [signedNumber?_eq_signed?, signedNumber?_eq_signed?, first, next]
      split
      · exact Or.inl ⟨rfl, rfl⟩
      · cases signed : signed? (current tokens).kind (second tokens).kind with
        | none => exact Or.inl ⟨rfl, rfl⟩
        | some value =>
          exact Or.inr ⟨value, _, _, _, rfl, rfl, after.advance trails (isInner_of_signed? signed).2⟩
    · -- a sign at the end of the line is apart from a number that the comment begins with
      have next : second tokens' = current more := congrArg current left
      refine Or.inl ⟨signedNumber?_of_closes (Or.inr (Or.inl ends)), ?_⟩
      rcases trails.first with ⟨-, empty⟩ | ⟨-, -, spaced⟩
      · exact signedNumber?_of_closes (Or.inr (Or.inl (next ▸ empty)))
      · rw [signedNumber?_eq_signed?, next, if_pos spaced]
  · exact Or.inl ⟨signedNumber?_of_outer inner, signedNumber?_of_outer (first ▸ inner)⟩

/-- A constant is read the same before a comment. -/
theorem constant?_extends (further : (current tokens).kind ≠ .endOfLine) {found : Option (Constant × List Token)}
    (read : LineParser.constant? tokens = .ok found) :
    (found = none ∧ LineParser.constant? tokens' = .ok none) ∨
      ∃ c rest rest', found = some (c, rest) ∧ LineParser.constant? tokens' = .ok (some (c, rest')) ∧
        Extends more width broken rest rest' := by
  have first := longer.current_eq further
  unfold LineParser.constant? at read ⊢
  dsimp only at read ⊢
  rw [first]
  split at read
  next content text =>
    obtain ⟨s, fitted, made⟩ := bind_eq_ok_iff.mp read
    cases made
    exact Or.inr ⟨_, _, _, rfl, bind_eq_ok_iff.mpr ⟨s, fitted, rfl⟩, longer.advance_of_kind trails text rfl⟩
  next designator bits octal =>
    cases read
    exact Or.inr ⟨_, _, _, rfl, rfl, longer.advance_of_kind trails octal rfl⟩
  · rcases signedNumber?_extends trails longer further with
      ⟨unsigned, unsigned'⟩ | ⟨value, column, left, left', signed, signed', after⟩
    · rw [unsigned] at read
      cases read
      exact Or.inl ⟨rfl, by rw [unsigned']⟩
    · rw [signed] at read
      rw [signed']
      obtain ⟨fit, fitted, made⟩ := bind_eq_ok_iff.mp read
      cases made
      exact Or.inr ⟨_, _, _, rfl, bind_eq_ok_iff.mpr ⟨fit, fitted, rfl⟩, after⟩

end

/-! ## Parts of a line -/

section

variable {α β : Type}

def LineParser.yield (a : α) (tokens : List Token) : Except Complaint (α × List Token) :=
  .ok (a, tokens)

def LineParser.andThen (p : List Token → Except Complaint (α × List Token))
    (q : α → List Token → Except Complaint (β × List Token)) (tokens : List Token) :
    Except Complaint (β × List Token) :=
  p tokens >>= fun found => q found.1 found.2

/-- A part of a line that is the same with the comment as without it. -/
def Steady (more : List Token) (width : Nat) (part : List Token → Except Complaint (α × List Token)) : Prop :=
  ∀ ⦃broken tokens tokens' a rest⦄, Extends more width broken tokens tokens' → part tokens = .ok (a, rest) →
    ∃ rest', part tokens' = .ok (a, rest') ∧ Extends more width broken rest rest'

/-- A part of a line that is never empty. -/
def Occupied (part : List Token → Except Complaint (α × List Token)) : Prop :=
  ∀ ⦃tokens a rest⦄, part tokens = .ok (a, rest) → (current tokens).kind ≠ .endOfLine

variable {more : List Token} {width : Nat} {p : List Token → Except Complaint (α × List Token)}
  {q : α → List Token → Except Complaint (β × List Token)}

theorem Steady.yield (a : α) : Steady more width (LineParser.yield a) := by
  intro broken tokens tokens' _ _ longer read
  cases read
  exact ⟨tokens', rfl, longer⟩

/-- Steady parts make a steady part. -/
theorem Steady.andThen (first : Steady more width p) (next : ∀ a, Steady more width (q a)) :
    Steady more width (LineParser.andThen p q) := by
  intro broken tokens tokens' b rest longer read
  obtain ⟨⟨a, left⟩, here, there⟩ := bind_eq_ok_iff.mp read
  obtain ⟨left', here', after⟩ := first longer here
  obtain ⟨rest', there', last⟩ := next a after there
  exact ⟨rest', bind_eq_ok_iff.mpr ⟨_, here', there'⟩, last⟩

theorem Occupied.andThen (first : Occupied p) : Occupied (LineParser.andThen p q) := by
  intro tokens b rest read
  obtain ⟨⟨a, left⟩, here, -⟩ := bind_eq_ok_iff.mp read
  exact first here

end

/-! ## Addresses -/

def LineParser.starless (indirect : Bool) (tokens : List Token) : Except Complaint (SimpleAddress × List Token) :=
  match (current tokens).kind with
  | .identifier name => .ok (⟨.label name, indirect⟩, advance tokens)
  | .number n =>
    if (second tokens).kind = .plus ∧ !(second tokens).spaceBefore then
      .ok (⟨.relative n, indirect⟩, advance (advance tokens))
    else .ok (⟨.location n, indirect⟩, advance tokens)
  | _ => unexpected legacyRules tokens "an address"

def LineParser.optionalIndex (tokens : List Token) : Except Complaint (Option Nat × List Token) :=
  if (current tokens).kind = .colon ∧ !(current tokens).spaceBefore then
    LineParser.andThen LineParser.index (fun n => LineParser.yield (some n)) tokens
  else LineParser.yield none tokens

theorem simpleAddress_eq_starless (tokens : List Token) :
    LineParser.simpleAddress tokens =
      if (current tokens).kind = .star then LineParser.starless true (advance tokens)
      else LineParser.starless false tokens := by
  unfold LineParser.simpleAddress LineParser.starless
  by_cases star : (current tokens).kind = .star
  · simp only [star, if_true]
    cases (current (advance tokens)).kind <;> simp [second]
  · simp only [star, if_false]
    cases (current tokens).kind <;> simp [second]

theorem indexedAddress_eq_andThen : LineParser.indexedAddress =
    LineParser.andThen LineParser.simpleAddress fun a =>
      LineParser.andThen LineParser.optionalIndex fun n => LineParser.yield ⟨a, n⟩ := by
  funext tokens
  unfold LineParser.indexedAddress LineParser.andThen LineParser.optionalIndex
  congr
  funext ⟨a, rest⟩
  dsimp only
  split
  · unfold LineParser.andThen
    cases LineParser.index rest <;> rfl
  · rfl

theorem occupied_starless (indirect : Bool) : Occupied (LineParser.starless indirect) := by
  intro tokens a rest read ends
  simp [LineParser.starless, unexpected, complain, ends] at read

theorem occupied_simpleAddress : Occupied LineParser.simpleAddress := by
  intro tokens a rest read ends
  rw [simpleAddress_eq_starless, if_neg (by simp [ends])] at read
  exact occupied_starless false read ends

theorem occupied_indexedAddress : Occupied LineParser.indexedAddress := by
  rw [indexedAddress_eq_andThen]
  exact occupied_simpleAddress.andThen

theorem occupied_index : Occupied LineParser.index := by
  intro tokens n rest read ends
  simp [LineParser.index, unexpected, complain, ends] at read

section

variable {comment : List Char} {more : List Token} {width : Nat} (trails : Trails comment width more)
include trails

theorem steady_starless (indirect : Bool) : Steady more width (LineParser.starless indirect) := by
  intro broken tokens tokens' a rest longer read
  have first := longer.current_eq (occupied_starless indirect read)
  unfold LineParser.starless at read ⊢
  rw [first]
  split at read
  next name label =>
    cases read
    exact ⟨_, rfl, longer.advance_of_kind trails label rfl⟩
  next n number =>
    have after := longer.advance_of_kind trails number rfl
    have same := after.touches_iff trails .plus nofun
    split at read
    next plus =>
      cases read
      exact ⟨_, if_pos (same.mpr plus), after.advance_of_kind trails plus.1 rfl⟩
    next other =>
      cases read
      exact ⟨_, if_neg (same.not.mpr other), after⟩
  · exact absurd read unexpected_ne_ok

theorem steady_simpleAddress : Steady more width LineParser.simpleAddress := by
  intro broken tokens tokens' a rest longer read
  have first := longer.current_eq (occupied_simpleAddress read)
  rw [simpleAddress_eq_starless] at read ⊢
  rw [first]
  split at read
  next star =>
    rw [if_pos star]
    exact steady_starless trails true (longer.advance_of_kind trails star rfl) read
  next other =>
    rw [if_neg other]
    exact steady_starless trails false longer read

theorem steady_index : Steady more width LineParser.index := by
  intro broken tokens tokens' n rest longer read
  unfold LineParser.index at read
  dsimp only at read
  split at read
  · exact absurd read unexpected_ne_ok
  next colon =>
    have touches : Touches (current tokens) .colon := by simpa [Touches] using colon
    have touches' := (longer.touches_iff trails .colon nofun).mpr touches
    have opened : ¬ ((current tokens').kind ≠ .colon ∨ (current tokens').spaceBefore = true) := by
      simpa [Touches] using touches'
    have after := longer.advance_of_kind trails touches.1 rfl
    split at read
    next m number =>
      have digits := after.current_eq (by simp [number])
      split at read
      · cases read
      next short =>
        cases read
        refine ⟨_, ?_, after.advance_of_kind trails number rfl⟩
        simp only [LineParser.index, if_neg opened, digits, number, if_neg short]
    · cases read

theorem steady_optionalIndex : Steady more width LineParser.optionalIndex := by
  intro broken tokens tokens' index rest longer read
  have same := longer.touches_iff trails .colon nofun
  unfold LineParser.optionalIndex at read
  split at read
  next colon =>
    obtain ⟨rest', read', after⟩ := (steady_index trails).andThen (fun n => .yield (some n)) longer read
    exact ⟨rest', (if_pos (same.mpr colon)).trans read', after⟩
  next other =>
    cases read
    exact ⟨tokens', if_neg (same.not.mpr other), longer⟩

theorem steady_indexedAddress : Steady more width LineParser.indexedAddress := by
  rw [indexedAddress_eq_andThen]
  exact (steady_simpleAddress trails).andThen fun _ => (steady_optionalIndex trails).andThen fun _ => .yield _

end

/-! ## Operands -/

section

variable {α O : Type} {address : List Token → Except Complaint (α × List Token)}

def LineParser.constantOr (address : List Token → Except Complaint (α × List Token)) (ofConstant : Constant → O)
    (ofAddress : α → O) (tokens : List Token) : Except Complaint (O × List Token) := do
  match ← LineParser.constant? tokens with
  | some (c, rest) => return (ofConstant c, rest)
  | none =>
    let (a, rest) ← address tokens
    return (ofAddress a, rest)

variable (ofConstant : Constant → O) (ofAddress : α → O)

theorem constantOr_of_absent {tokens : List Token} (absent : LineParser.constant? tokens = .ok none) :
    LineParser.constantOr address ofConstant ofAddress tokens =
      LineParser.andThen address (fun a => LineParser.yield (ofAddress a)) tokens := by
  rw [LineParser.constantOr, absent]
  rfl

theorem occupied_constantOr (occupied : Occupied address) :
    Occupied (LineParser.constantOr address ofConstant ofAddress) := by
  intro tokens o rest read ends
  rw [constantOr_of_absent ofConstant ofAddress (constant?_of_ends ends)] at read
  exact occupied.andThen read ends

/-- An operand that must be there is steady. -/
theorem steady_constantOr {comment : List Char} {more : List Token} {width : Nat} (trails : Trails comment width more)
    (occupied : Occupied address) (steady : Steady more width address) :
    Steady more width (LineParser.constantOr address ofConstant ofAddress) := by
  intro broken tokens tokens' o rest longer read
  have further := occupied_constantOr ofConstant ofAddress occupied read
  obtain ⟨found, constant, read⟩ := bind_eq_ok_iff.mp read
  rcases constant?_extends trails longer further constant with ⟨rfl, absent⟩ | ⟨c, left, left', rfl, constant', after⟩
  · rw [constantOr_of_absent ofConstant ofAddress absent]
    exact steady.andThen (fun a => .yield (ofAddress a)) longer read
  · cases read
    exact ⟨left', bind_eq_ok_iff.mpr ⟨_, constant', rfl⟩, after⟩

end

theorem operand_eq_constantOr :
    LineParser.operand = LineParser.constantOr LineParser.indexedAddress .constant .address :=
  rfl

theorem loadOperand_eq_constantOr :
    LineParser.loadOperand = LineParser.constantOr LineParser.simpleAddress .constant .address :=
  rfl

def LineParser.operands (mnemonic : String) (acc : Option Nat) :
    Group → List Token → Except Complaint (Content × List Token)
  | .library => yield (.library mnemonic)
  | .take => andThen operand fun o => yield (.take mnemonic acc o)
  | .put => andThen indexedAddress fun a => yield (.put mnemonic acc a)
  | .loadNumber => andThen simpleAddress fun a => andThen index fun n => yield (.loadNumber acc a n)
  | .loadRegister => andThen loadOperand fun o => andThen index fun n => yield (.loadRegister acc o n)

theorem occupied_operands (mnemonic : String) (acc : Option Nat) {group : Group} (needed : group ≠ .library) :
    Occupied (LineParser.operands mnemonic acc group) := by
  unfold LineParser.operands
  cases group with
  | library => exact absurd rfl needed
  | take => exact (occupied_constantOr _ _ occupied_indexedAddress).andThen
  | put => exact occupied_indexedAddress.andThen
  | loadNumber => exact occupied_simpleAddress.andThen
  | loadRegister => exact (occupied_constantOr _ _ occupied_simpleAddress).andThen

/-- What comes after the name and the accumulator is steady. -/
theorem steady_operands {comment : List Char} {more : List Token} {width : Nat} (trails : Trails comment width more)
    (mnemonic : String) (acc : Option Nat) (group : Group) :
    Steady more width (LineParser.operands mnemonic acc group) := by
  have simple := steady_simpleAddress trails
  have indexed := steady_indexedAddress trails
  have index := steady_index trails
  cases group with
  | library => exact .yield _
  | take => exact (steady_constantOr _ _ trails occupied_indexedAddress indexed).andThen fun _ => .yield _
  | put => exact indexed.andThen fun _ => .yield _
  | loadNumber => exact simple.andThen fun _ => index.andThen fun _ => .yield _
  | loadRegister =>
    exact (steady_constantOr _ _ trails occupied_simpleAddress simple).andThen fun _ => index.andThen fun _ => .yield _

/-! ## Instructions -/

/-- The last token of the line is the digit two. -/
structure EndsInTwo (tokens : List Token) : Prop where
  number : (current tokens).kind = .number Vocabulary.alternateAccumulator
  last : (second tokens).kind = .endOfLine

/-- A word without an accumulator whose operand is the bare address two. -/
def Content.Ambiguous (content : Content) : Prop :=
  ∃ mnemonic, content = .take mnemonic none (.address ⟨⟨.location 2, false⟩, none⟩) ∨
    content = .put mnemonic none ⟨⟨.location 2, false⟩, none⟩

/-- The accumulator of an instruction whose name has the suffix, and what comes after it. -/
def LineParser.accumulated (suffix : Option Nat) (tokens : List Token) : Option Nat × List Token :=
  if suffix.isSome then (suffix, tokens) else LineParser.accumulator tokens

theorem instruction_eq_operands (name : String) (tokens : List Token) :
    LineParser.instruction name tokens =
      match Vocabulary.group? (Vocabulary.splitAccumulator name).1 with
      | none => complain tokens (.unknownMnemonic name [])
      | some .library => .ok (.library (Vocabulary.splitAccumulator name).1, advance tokens)
      | some group =>
        LineParser.operands (Vocabulary.splitAccumulator name).1
          (LineParser.accumulated (Vocabulary.splitAccumulator name).2 (advance tokens)).1 group
          (LineParser.accumulated (Vocabulary.splitAccumulator name).2 (advance tokens)).2 := by
  unfold LineParser.instruction
  obtain ⟨mnemonic, suffix⟩ := Vocabulary.splitAccumulator name
  dsimp only
  cases Vocabulary.group? mnemonic with
  | none => rfl
  | some group => cases group <;> rfl

section

variable {tokens : List Token}

theorem accumulator_of_last (last : (second tokens).kind = .endOfLine) :
    LineParser.accumulator tokens = (none, tokens) := by
  unfold LineParser.accumulator
  dsimp only
  split <;> simp_all

theorem accumulator_of_other (other : (current tokens).kind ≠ .number Vocabulary.alternateAccumulator) :
    LineParser.accumulator tokens = (none, tokens) := by
  unfold LineParser.accumulator
  dsimp only
  split
  · rfl
  next n number _ =>
    have apart : n ≠ Vocabulary.alternateAccumulator := by
      rintro rfl
      exact other number
    exact if_neg fun two => apart two.1
  · rfl

theorem accumulated_further {suffix : Option Nat}
    (further : (current (LineParser.accumulated suffix tokens).2).kind ≠ .endOfLine) :
    (current tokens).kind ≠ .endOfLine := by
  intro ends
  unfold LineParser.accumulated at further
  rw [accumulator_of_other (by simp [ends])] at further
  split at further <;> exact further ends

/-- The digit two at the end of a line is an address. -/
theorem EndsInTwo.indexedAddress_eq (two : EndsInTwo tokens) :
    LineParser.simpleAddress tokens = .ok (⟨.location 2, false⟩, advance tokens) ∧
      LineParser.indexedAddress tokens = .ok (⟨⟨.location 2, false⟩, none⟩, advance tokens) := by
  have starless : LineParser.starless false tokens = .ok (⟨.location 2, false⟩, advance tokens) := by
    simp [LineParser.starless, two.number, two.last, Vocabulary.alternateAccumulator]
  have simple : LineParser.simpleAddress tokens = .ok (⟨.location 2, false⟩, advance tokens) := by
    rw [simpleAddress_eq_starless, if_neg (by simp [two.number]), starless]
  have unindexed : LineParser.optionalIndex (advance tokens) = .ok (none, advance tokens) :=
    if_neg fun colon => by cases two.last.symm.trans colon.1
  refine ⟨simple, ?_⟩
  rw [indexedAddress_eq_andThen]
  exact bind_eq_ok_iff.mpr ⟨_, simple, bind_eq_ok_iff.mpr ⟨_, unindexed, rfl⟩⟩

/-- The digit two at the end of a line is the whole operand of the word. -/
theorem EndsInTwo.ambiguous {mnemonic : String} {group : Group} {content : Content} {rest : List Token}
    (two : EndsInTwo tokens) (needed : group ≠ .library)
    (read : LineParser.operands mnemonic none group tokens = .ok (content, rest)) : content.Ambiguous := by
  obtain ⟨simple, indexed⟩ := two.indexedAddress_eq
  have constantless := constant?_of_number two.number
  have operand : LineParser.operand tokens =
      .ok (.address ⟨⟨.location 2, false⟩, none⟩, advance tokens) := by
    rw [operand_eq_constantOr, constantOr_of_absent _ _ constantless]
    exact bind_eq_ok_iff.mpr ⟨_, indexed, rfl⟩
  cases group with
  | library => exact absurd rfl needed
  | take =>
    obtain ⟨found, here, made⟩ := bind_eq_ok_iff.mp read
    cases operand.symm.trans here
    cases made
    exact ⟨mnemonic, Or.inl rfl⟩
  | put =>
    obtain ⟨found, here, made⟩ := bind_eq_ok_iff.mp read
    cases indexed.symm.trans here
    cases made
    exact ⟨mnemonic, Or.inr rfl⟩
  | loadNumber =>
    -- an index must follow the address
    obtain ⟨found, here, read⟩ := bind_eq_ok_iff.mp read
    cases simple.symm.trans here
    exact absurd two.last (occupied_index.andThen read)
  | loadRegister =>
    obtain ⟨found, here, read⟩ := bind_eq_ok_iff.mp read
    have loaded : LineParser.loadOperand tokens = .ok (.address ⟨.location 2, false⟩, advance tokens) := by
      rw [loadOperand_eq_constantOr, constantOr_of_absent _ _ constantless]
      exact bind_eq_ok_iff.mpr ⟨_, simple, rfl⟩
    cases loaded.symm.trans here
    exact absurd two.last (occupied_index.andThen read)

end

section

variable {comment : List Char} {more tokens tokens' rest : List Token} {width : Nat} {broken : Bool}
  (trails : Trails comment width more) (longer : Extends more width broken tokens tokens')
include trails longer

/-- An instruction has the accumulator that it has without the comment, unless the line ends in the digit two. -/
theorem accumulated_extends (suffix : Option Nat) (further : (current tokens).kind ≠ .endOfLine) :
    (LineParser.accumulated suffix tokens = (none, tokens) ∧ EndsInTwo tokens) ∨
      (LineParser.accumulated suffix tokens').1 = (LineParser.accumulated suffix tokens).1 ∧
        Extends more width broken (LineParser.accumulated suffix tokens).2
          (LineParser.accumulated suffix tokens').2 := by
  unfold LineParser.accumulated
  by_cases named : suffix.isSome = true
  · rw [if_pos named, if_pos named]
    exact Or.inr ⟨rfl, longer⟩
  rw [if_neg named, if_neg named]
  have first := longer.current_eq further
  by_cases two : (current tokens).kind = .number Vocabulary.alternateAccumulator
  · by_cases last : (second tokens).kind = .endOfLine
    · exact Or.inl ⟨accumulator_of_last last, two, last⟩
    · have after := longer.advance_of_kind trails two rfl
      have next : second tokens' = second tokens := after.current_eq last
      right
      unfold LineParser.accumulator
      dsimp only
      rw [first, next]
      split
      · exact ⟨rfl, longer⟩
      · split
        · exact ⟨rfl, after⟩
        · exact ⟨rfl, longer⟩
      · exact ⟨rfl, longer⟩
  · rw [accumulator_of_other two, accumulator_of_other (first ▸ two)]
    exact Or.inr ⟨rfl, longer⟩

/-- An instruction is read the same before a comment, unless the two at its end could be its accumulator then. -/
theorem instruction_extends {name : String} {content : Content} (named : (current tokens).kind = .identifier name)
    (clear : ¬ content.Ambiguous) (read : LineParser.instruction name tokens = .ok (content, rest)) :
    ∃ rest', LineParser.instruction name tokens' = .ok (content, rest') ∧ Extends more width broken rest rest' := by
  have after := longer.advance_of_kind trails named rfl
  rw [instruction_eq_operands] at read ⊢
  split at read
  · cases read
  · cases read
    exact ⟨_, rfl, after⟩
  next group needed _ =>
    have further := accumulated_further (occupied_operands _ _ needed read)
    rcases accumulated_extends trails after (Vocabulary.splitAccumulator name).2 further with
      ⟨none, two⟩ | ⟨same, left⟩
    · rw [none] at read
      exact absurd (two.ambiguous needed read) clear
    · rw [same]
      exact steady_operands trails _ _ group left read

/-- The word of a line is read the same before a comment. -/
theorem content_extends {content : Content} (further : (current tokens).kind ≠ .endOfLine)
    (clear : ¬ content.Ambiguous) (read : LineParser.content tokens = .ok (content, rest)) :
    ∃ rest', LineParser.content tokens' = .ok (content, rest') ∧ Extends more width broken rest rest' := by
  have first := longer.current_eq further
  unfold LineParser.content at read ⊢
  dsimp only at read ⊢
  rw [first]
  split at read
  next text quoted =>
    obtain ⟨_, fitted, made⟩ := map_eq_ok_iff.mp read
    cases made
    exact ⟨_, map_eq_ok_iff.mpr ⟨_, fitted, rfl⟩, longer.advance_of_kind trails quoted rfl⟩
  next designator bits octal =>
    cases read
    exact ⟨_, rfl, longer.advance_of_kind trails octal rfl⟩
  next name named => exact instruction_extends trails longer named clear read
  next n number =>
    obtain ⟨_, fitted, made⟩ := map_eq_ok_iff.mp read
    cases made
    exact ⟨_, map_eq_ok_iff.mpr ⟨_, fitted, rfl⟩, longer.advance_of_kind trails number rfl⟩
  next x real =>
    obtain ⟨_, fitted, made⟩ := map_eq_ok_iff.mp read
    cases made
    exact ⟨_, map_eq_ok_iff.mpr ⟨_, fitted, rfl⟩, longer.advance_of_kind trails real rfl⟩
  · rcases signedNumber?_extends trails longer further with
      ⟨unsigned, -⟩ | ⟨value, column, left, left', signed, signed', after⟩
    · rw [unsigned] at read
      exact absurd read unexpected_ne_ok
    · rw [signed] at read
      rw [signed']
      obtain ⟨_, fitted, made⟩ := map_eq_ok_iff.mp read
      cases made
      exact ⟨left', map_eq_ok_iff.mpr ⟨_, fitted, rfl⟩, after⟩

end

end WordMachine.Legacy
