import WordMachine.Proofs.Legacy.SteadyParts
import WordMachine.Proofs.Source.Complaints

/-!
# Where lines of the legacy dialect are complained about

The parts of a line are read one after the other, and each starts with the tokens that the one before it has left. So
a complaint is about a column of the line if each part leaves tokens of the line to the next (`Confined`).
-/
namespace WordMachine.Legacy

open Source Source.Token

/-- A part of a line that leaves tokens of the line, or complains about one of its columns. -/
def Confined {α : Type} (width : Nat) (part : List Token → Except Complaint (α × List Token)) : Prop :=
  ∀ ⦃tokens⦄, TokensOnLine width tokens → Answers width (fun r => TokensOnLine width r.2) (part tokens)

section

variable {α β : Type} {width : Nat}

theorem Confined.yield (a : α) : Confined width (LineParser.yield a) :=
  fun _ inside => inside

/-- Parts that stay on the line make a part that does. -/
theorem Confined.andThen {p : List Token → Except Complaint (α × List Token)}
    {q : α → List Token → Except Complaint (β × List Token)} (first : Confined width p)
    (next : ∀ a, Confined width (q a)) : Confined width (LineParser.andThen p q) :=
  fun _ inside => (first inside).bind fun r left => next r.1 left

end

/-! ## Operands -/

section

variable {width : Nat}

theorem confined_starless (indirect : Bool) : Confined width (LineParser.starless indirect) := by
  intro tokens inside
  unfold LineParser.starless
  split
  · exact inside.advance
  · split
    · exact inside.advance.advance
    · exact inside.advance
  · exact .unexpected inside _ _

theorem confined_simpleAddress : Confined width LineParser.simpleAddress := by
  intro tokens inside
  rw [simpleAddress_eq_starless]
  split
  · exact confined_starless true inside.advance
  · exact confined_starless false inside

theorem confined_index : Confined width LineParser.index := by
  intro tokens inside
  unfold LineParser.index
  dsimp only
  split
  · exact .unexpected inside _ _
  · split
    · split
      · exact .complain inside.advance _
      · exact inside.advance.advance
    · exact .complain inside.advance _

theorem confined_optionalIndex : Confined width LineParser.optionalIndex := by
  intro tokens inside
  unfold LineParser.optionalIndex
  split
  · exact (confined_index.andThen fun _ => .yield _) inside
  · exact Confined.yield none inside

theorem confined_indexedAddress : Confined width LineParser.indexedAddress := by
  rw [indexedAddress_eq_andThen]
  exact confined_simpleAddress.andThen fun _ => confined_optionalIndex.andThen fun _ => .yield _

theorem answers_textContent {column : Nat} (here : OnLine width column) (content : String) :
    Answers width (fun _ => True) (LineParser.textContent content column) := by
  unfold LineParser.textContent
  dsimp only
  split
  · exact here
  · split
    · exact here
    · trivial

theorem answers_constant? {tokens : List Token} (inside : TokensOnLine width tokens) :
    Answers width (fun found => ∀ r ∈ found, TokensOnLine width r.2) (LineParser.constant? tokens) := by
  unfold LineParser.constant?
  dsimp only
  split
  · refine (answers_textContent inside.current _).bind fun _ _ => ?_
    rintro _ ⟨⟩
    exact inside.advance
  · rintro _ ⟨⟩
    exact inside.advance
  · split
    · exact nofun
    next value column rest signed =>
      obtain ⟨here, left⟩ := onLine_of_signedNumber? inside signed
      refine (answers_fitting here value).bind fun _ _ => ?_
      rintro _ ⟨⟩
      exact left

theorem Confined.constantOr {α O : Type} {address : List Token → Except Complaint (α × List Token)}
    (confined : Confined width address) (ofConstant : Constant → O) (ofAddress : α → O) :
    Confined width (LineParser.constantOr address ofConstant ofAddress) := by
  intro tokens inside
  refine (answers_constant? inside).bind fun found left => ?_
  cases found with
  | none => exact (confined inside).bind fun _ left => left
  | some r => exact left r rfl

/-- Whatever the group of a mnemonic asks for, it is looked for on the line. -/
theorem confined_operands (mnemonic : String) (acc : Option Nat) (group : Group) :
    Confined width (LineParser.operands mnemonic acc group) := by
  cases group with
  | library => exact .yield _
  | take => exact (confined_indexedAddress.constantOr _ _).andThen fun _ => .yield _
  | put => exact confined_indexedAddress.andThen fun _ => .yield _
  | loadNumber => exact confined_simpleAddress.andThen fun _ => confined_index.andThen fun _ => .yield _
  | loadRegister =>
    exact (confined_simpleAddress.constantOr _ _).andThen fun _ => confined_index.andThen fun _ => .yield _

end

/-! ## Words and lines -/

theorem answers_numberContent {width column : Nat} (here : OnLine width column) (value : Numeric.Number) :
    Answers width (fun _ => True) (LineParser.numberContent value column) :=
  (answers_fitting here value).map fun _ _ => trivial

section

variable {width : Nat} {tokens : List Token} (inside : TokensOnLine width tokens)
include inside

theorem tokensOnLine_accumulated (suffix : Option Nat) :
    TokensOnLine width (LineParser.accumulated suffix tokens).2 := by
  unfold LineParser.accumulated LineParser.accumulator
  dsimp only
  split
  · exact inside
  · split
    · exact inside
    · split
      · exact inside.advance
      · exact inside
    · exact inside

/-- An instruction is complained about on its line. -/
theorem answers_instruction (name : String) :
    Answers width (fun r => TokensOnLine width r.2) (LineParser.instruction name tokens) := by
  rw [instruction_eq_operands]
  split
  · exact .complain inside _
  · exact inside.advance
  · exact confined_operands _ _ _ (tokensOnLine_accumulated inside.advance _)

/-- The word of a line is complained about on its line. -/
theorem answers_content : Answers width (fun r => TokensOnLine width r.2) (LineParser.content tokens) := by
  unfold LineParser.content
  dsimp only
  split
  · exact (answers_textContent inside.current _).map fun _ _ => inside.advance
  · exact inside.advance
  · exact answers_instruction inside _
  · exact (answers_numberContent inside.current _).map fun _ _ => inside.advance
  · exact (answers_numberContent inside.current _).map fun _ _ => inside.advance
  · split
    next value column rest signed =>
      obtain ⟨here, left⟩ := onLine_of_signedNumber? inside signed
      exact (answers_numberContent here value).map fun _ _ => left
    · exact .unexpected inside _ _

theorem answers_comment (text : String) : Answers width (fun _ => True) (LineParser.comment tokens text) := by
  unfold LineParser.comment
  dsimp only
  split
  · trivial
  · split
    · trivial
    · exact .complain inside _

/-- Whatever part of a line is complained about, it is on the line. -/
theorem answers_parts (text : String) : Answers width (fun _ => True) (LineParser.parts tokens text) := by
  unfold LineParser.parts
  dsimp only
  split
  · split
    · exact .complain inside.advance _
    · exact (answers_content inside.advance).bind fun _ left => (answers_comment left text).bind fun _ _ => trivial
  · exact .complain inside _

end

/-- The reader of the legacy dialect complains about columns of its lines. -/
theorem complainsOnLine : LineReader.ComplainsOnLine Line.parse := by
  intro text file number reading d unbroken read complained
  rw [legacyParse_eq unbroken] at read
  obtain ⟨tokens, scanned, rfl⟩ := map_eq_ok_iff.mp read
  dsimp only at complained
  unfold Line.ofTokens at complained
  split at complained
  · cases complained
  · split at complained
    next complaint stopped =>
      cases complained
      have inside := tokensOnLine_of_ofLine scanned
      exact ⟨complaint.problem, complaint.column, (answers_parts inside text).error stopped, rfl⟩
    · cases complained

end WordMachine.Legacy
