import WordMachine.Proofs.Legacy.Pieces

/-!
# Words of the legacy dialect as text

A line is written as its location and its word, with single blanks between location, mnemonic and operand; the
accumulator stands directly after the mnemonic. Every word that the dialect can hold, but for reals, is spelled in
pieces (`Content.pieces`), and in an operand no piece but the first has a blank before it.
-/
namespace WordMachine.Legacy

open Source Source.Token Text

/-! ## Lines as text -/

def suffix (accumulator : Option Nat) : String :=
  accumulator.elim "" toString

def Content.written : Content → String
  | .integer n => toString n
  | .real x => x.text
  | .text s => (Constant.text s).written
  | .octal w => w.written
  | .take m acc o => m ++ suffix acc ++ " " ++ o.written
  | .put m acc a => m ++ suffix acc ++ " " ++ a.written
  | .loadNumber acc a n => "LDN" ++ suffix acc ++ " " ++ (a.written ++ ":" ++ toString n)
  | .loadRegister acc o n => "LDR" ++ suffix acc ++ " " ++ (o.written ++ ":" ++ toString n)
  | .library m => m

def Target.numbers : Target → List Int
  | .label _ => []
  | .location n | .relative n => [n]

def Constant.numbers : Constant → List Int
  | .integer n => [n]
  | _ => []

def IndexedAddress.numbers (a : IndexedAddress) : List Int :=
  a.address.target.numbers ++ a.index.toList.map Int.ofNat

def Operand.numbers : Operand → List Int
  | .address a => a.numbers
  | .constant c => c.numbers

def LoadOperand.numbers : LoadOperand → List Int
  | .address a => a.target.numbers
  | .constant c => c.numbers

def Content.numbers : Content → List Int
  | .integer n => [n]
  | .take _ acc o => acc.toList.map Int.ofNat ++ o.numbers
  | .put _ acc a => acc.toList.map Int.ofNat ++ a.numbers
  | .loadNumber acc a n => acc.toList.map Int.ofNat ++ a.target.numbers ++ [(n : Int)]
  | .loadRegister acc o n => acc.toList.map Int.ofNat ++ o.numbers ++ [(n : Int)]
  | .real _ | .text _ | .octal _ | .library _ => []

/-- The text of a line, if none of its integers is too long to be written. -/
def writtenLine? (location : Nat) (c : Content) : Option String :=
  if ((location : Int) :: c.numbers).all isWritable then some (toString location ++ " " ++ c.written) else none

/-! ## Lines that can be read back -/

def Target.Plain (t : Target) : Prop :=
  ∀ name, t = .label name → IsName name

/-- An index has one or two digits. -/
def IsIndex (n : Nat) : Prop :=
  n ≤ 99

structure IndexedAddress.Plain (a : IndexedAddress) : Prop where
  target : a.address.target.Plain
  index : ∀ n ∈ a.index, IsIndex n

/-- A designator of octal words, and bits that eight digits write. -/
structure OctalWord.Plain (w : OctalWord) : Prop where
  designator : w.designator ∈ ['S', 'P', 'F', 'I']
  bits : w.bits < 8 ^ 8

/-- An integer that fits, an octal word, or one to four of the characters of texts without the one that ends a
text. -/
def Constant.Plain : Constant → Prop
  | .integer n => Word.fits n
  | .real _ => False
  | .text s => 1 ≤ s.length ∧ s.length ≤ Charset.charsPerWord ∧
    ∀ c ∈ s.toList, c ∈ LineParser.textCharacters ∧ c ≠ '>'
  | .octal w => w.Plain

def Operand.Plain : Operand → Prop
  | .address a => a.Plain
  | .constant c => c.Plain

def LoadOperand.Plain : LoadOperand → Prop
  | .address a => a.target.Plain
  | .constant c => c.Plain

def Named (accumulator : Option Nat) : Prop :=
  ∀ n ∈ accumulator, n = Vocabulary.alternateAccumulator

def Content.Plain : Content → Prop
  | .integer n => Word.fits n
  | .real _ => False
  | .text s => (Constant.text s).Plain
  | .octal w => w.Plain
  | .take m acc o => Vocabulary.group? m = some .take ∧ Named acc ∧ o.Plain
  | .put m acc a => Vocabulary.group? m = some .put ∧ Named acc ∧ a.Plain
  | .loadNumber acc a n => Named acc ∧ a.target.Plain ∧ IsIndex n
  | .loadRegister acc o n => Named acc ∧ o.Plain ∧ IsIndex n
  | .library m => Vocabulary.group? m = some .library

/-! ## Mnemonics -/

namespace Vocabulary

def named : List String :=
  arithmetic ++ skips ++ (storing ++ jumps ++ (arithmetic ++ storing).map ("X" ++ ·)) ++ routines ++ ["LDN", "LDR"]

theorem mem_named_of_group? {m : String} {g : Group} (grouped : group? m = some g) : m ∈ named := by
  simp only [named, List.mem_append]
  unfold group? at grouped
  split at grouped
  next member => exact Or.inl (Or.inl (Or.inl (by simpa using member)))
  · split at grouped
    next member => exact Or.inl (Or.inl (Or.inr (by simpa [or_assoc] using member)))
    · split at grouped
      next member => exact Or.inl (Or.inr (by simpa using member))
      · split at grouped
        next same => simp [same]
        · split at grouped
          next same => simp [same]
          · cases grouped

theorem isAlpha_of_mem_named : ∀ m ∈ named, m.toList ≠ [] ∧ ∀ c ∈ m.toList, c.isAlpha = true := by
  have all : named.all (fun m => !m.toList.isEmpty && m.toList.all Char.isAlpha) = true := by decide +kernel
  intro m member
  simpa using List.all_eq_true.mp all m member

theorem suffix_none {m : String} : m ++ suffix none = m :=
  String.append_empty

theorem toList_suffix : (suffix (some alternateAccumulator)).toList = ['2'] := by
  decide

variable {m : String} {g : Group} (grouped : group? m = some g)
include grouped

/-- The names of mnemonics are letters. -/
theorem isAlpha_of_group? : m.toList ≠ [] ∧ ∀ c ∈ m.toList, c.isAlpha = true :=
  isAlpha_of_mem_named m (mem_named_of_group? grouped)

/-- No mnemonic ends in a digit. -/
theorem splitAccumulator_eq_self : splitAccumulator m = (m, none) := by
  unfold splitAccumulator
  split
  next before ends =>
    have member : '2' ∈ m.toList := by
      rw [← List.mem_reverse, ends]
      simp
    cases (isAlpha_of_group? grouped).2 '2' member
  · rfl

/-- A mnemonic that takes an accumulator is told from it. -/
theorem splitAccumulator_suffix (other : g ≠ .library) {acc : Option Nat} (known : Named acc) :
    splitAccumulator (m ++ suffix acc) = (m, acc) := by
  cases acc with
  | none => rw [suffix_none, splitAccumulator_eq_self grouped]
  | some n =>
    obtain rfl := known n rfl
    have ends : (m ++ suffix (some alternateAccumulator)).toList.reverse = '2' :: m.toList.reverse := by
      simp [toList_suffix]
    unfold splitAccumulator
    rw [ends]
    simp only [List.reverse_reverse, String.ofList_toList, grouped]

/-- A mnemonic is a name, with its accumulator or without. -/
theorem isName_suffix {acc : Option Nat} (known : Named acc) : IsName (m ++ suffix acc) := by
  obtain ⟨some, letters⟩ := isAlpha_of_group? grouped
  obtain ⟨c, tail, split⟩ := List.exists_cons_of_ne_nil some
  rw [split, List.forall_mem_cons] at letters
  have digits : ∀ d ∈ (suffix acc).toList, d.isAlphanum = true := by
    cases acc with
    | none => simp [suffix]
    | some n =>
      obtain rfl := known n rfl
      rw [toList_suffix]
      exact List.all_eq_true.mp rfl
  refine ⟨c, tail ++ (suffix acc).toList, by simp [split], letters.1, List.forall_mem_append.mpr ⟨?_, digits⟩⟩
  intro d member
  simp [Char.isAlphanum, letters.2 d member]

end Vocabulary

/-! ## Operands in pieces -/

def Piece.number (gap : Bool) (n : Nat) : Piece :=
  ⟨gap, (toString n).toList, .number n⟩

def Piece.sign (gap : Bool) (n : Int) : Piece :=
  if 0 ≤ n then ⟨gap, ['+'], .plus⟩ else ⟨gap, ['-'], .minus⟩

def Target.pieces (gap : Bool) : Target → List Piece
  | .label name => [⟨gap, name.toList, .identifier name⟩]
  | .location n => [.number gap n]
  | .relative n => [.number gap n, ⟨false, ['+'], .plus⟩]

def SimpleAddress.pieces (gap : Bool) (a : SimpleAddress) : List Piece :=
  if a.indirect then ⟨gap, ['*'], .star⟩ :: a.target.pieces false else a.target.pieces gap

def indexPieces (n : Nat) : List Piece :=
  [⟨false, [':'], .colon⟩, .number false n]

def IndexedAddress.pieces (gap : Bool) (a : IndexedAddress) : List Piece :=
  a.address.pieces gap ++ a.index.elim [] indexPieces

def Constant.pieces (gap : Bool) : Constant → List Piece
  | .integer n => [.sign gap n, .number false n.natAbs]
  | .real _ => []
  | .text s => [⟨gap, '<' :: (s.toList ++ ['>']), .text s⟩]
  | .octal w => [⟨gap, w.written.toList, .octal w.designator w.bits⟩]

def Operand.pieces (gap : Bool) : Operand → List Piece
  | .address a => a.pieces gap
  | .constant c => c.pieces gap

def LoadOperand.pieces (gap : Bool) : LoadOperand → List Piece
  | .address a => a.pieces gap
  | .constant c => c.pieces gap

/-- What may follow an operand or a part of it: neither a number nor a name goes on with it. -/
structure Follows (more : List Piece) : Prop where
  numeral : EndsNumeral (charactersOf more)
  name : EndsName (charactersOf more)

theorem follows_nil : Follows [] :=
  ⟨nofun, nofun⟩

/-- The text has these pieces, with a blank before the first or without. -/
structure InPieces (text : String) (pieces : Bool → List Piece) : Prop where
  characters : ∀ gap, charactersOf (pieces gap) = (if gap then [' '] else []) ++ text.toList
  fitted : ∀ gap more, Fitted more → Follows more → Fitted (pieces gap ++ more)

section

variable {gap : Bool} {more : List Piece}

theorem spaced_eq (gap : Bool) (cs : List Char) (kind : TokenKind) :
    (Piece.mk gap cs kind).spaced = (if gap then [' '] else []) ++ cs := by
  cases gap <;> rfl

theorem inPieces_target {t : Target} (plain : t.Plain) (writable : ∀ n ∈ t.numbers, isWritable n = true) :
    InPieces t.written fun gap => t.pieces gap := by
  cases t with
  | label name =>
    constructor
    case characters => simp [Target.pieces, Target.written, spaced_eq]
    case fitted => exact fun gap more fitted follows => .cons (.name (plain name rfl) follows.name) fitted
  | location n =>
    have fits := writable n (by simp [Target.numbers])
    constructor
    case characters => simp [Target.pieces, Target.written, Piece.number, spaced_eq]
    case fitted => exact fun gap more fitted follows => .cons (.number fits follows.numeral) fitted
  | relative n =>
    have fits := writable n (by simp [Target.numbers])
    constructor
    case characters =>
      have written : (Target.relative n).written = toString n ++ "+" := rfl
      simp [Target.pieces, written, Piece.number, spaced_eq]
    case fitted =>
      exact fun gap more fitted _ =>
        .cons (.number fits (endsNumeral_cons (by decide))) (.cons (.plus _) fitted)

theorem inPieces_simpleAddress {a : SimpleAddress} (plain : a.target.Plain)
    (writable : ∀ n ∈ a.target.numbers, isWritable n = true) : InPieces a.written fun gap => a.pieces gap := by
  have target := inPieces_target plain writable
  cases a with
  | mk t indirect =>
    cases indirect with
    | false => simpa [SimpleAddress.written, SimpleAddress.pieces] using target
    | true =>
      constructor
      case characters =>
        intro gap
        simp [SimpleAddress.written, SimpleAddress.pieces, spaced_eq, target.characters]
      case fitted => exact fun gap more fitted follows => .cons (.star _) (target.fitted false more fitted follows)

/-- An index goes on after an operand. -/
theorem fitted_index {n : Nat} (short : IsIndex n) : Fitted (indexPieces n) ∧ Follows (indexPieces n) := by
  have writable : isWritable n = true := isWritable_of_lt (Nat.lt_of_le_of_lt short (by decide))
  refine ⟨.cons (.colon _) (.cons (.number writable nofun) .nil), ⟨?_, ?_⟩⟩
  · exact endsNumeral_cons (by decide)
  · exact endsName_cons rfl

theorem characters_index (n : Nat) : charactersOf (indexPieces n) = (":" ++ toString n).toList := by
  simp [indexPieces, Piece.number, spaced_eq]

/-- An operand with an index is in pieces. -/
theorem InPieces.indexed {text : String} {pieces : Bool → List Piece} (inPieces : InPieces text pieces) {n : Nat}
    (short : IsIndex n) (gap : Bool) :
    charactersOf (pieces gap ++ indexPieces n) = (if gap then [' '] else []) ++ (text ++ ":" ++ toString n).toList ∧
      Fitted (pieces gap ++ indexPieces n) := by
  obtain ⟨fitted, follows⟩ := fitted_index short
  refine ⟨?_, inPieces.fitted gap _ fitted follows⟩
  rw [charactersOf_append, inPieces.characters, characters_index]
  simp

/-- A constant has its sign even if it is not negative. -/
theorem written_integer (n : Int) :
    (Constant.integer n).written = (if 0 ≤ n then "+" else "-") ++ toString n.natAbs := by
  have signed : (Constant.integer n).written =
      if (toString n).toList.head? = some '-' then toString n else "+" ++ toString n := rfl
  rw [signed]
  by_cases positive : 0 ≤ n
  · have unsigned : (toString n.natAbs).toList.head? ≠ some '-' := by
      intro first
      rw [Nat.toString_eq_repr, Nat.toList_repr] at first
      cases Nat.isDigit_of_mem_toDigits (by decide) (by decide) (List.mem_of_mem_head? first)
    rw [if_pos positive, toString_of_nonneg positive, if_neg unsigned]
  · rw [if_neg positive, toString_of_neg positive, if_pos (by simp)]

theorem fitted_sign (gap : Bool) (n : Int) {more : List Piece} (fitted : Fitted more) :
    Fitted (.sign gap n :: more) := by
  unfold Piece.sign
  split
  · exact .cons (.plus _) fitted
  · exact .cons (.minus _) fitted

/-- A constant is one piece after its sign. -/
theorem inPieces_constant {c : Constant} (plain : c.Plain) : InPieces c.written fun gap => c.pieces gap := by
  cases c with
  | real x => exact plain.elim
  | integer n =>
    have writable := isWritable_natAbs plain
    constructor
    case characters =>
      intro gap
      rw [written_integer]
      by_cases positive : 0 ≤ n <;> simp [Constant.pieces, Piece.sign, Piece.number, spaced_eq, positive]
    case fitted =>
      exact fun gap more fitted follows => fitted_sign gap n (.cons (.number writable follows.numeral) fitted)
  | text s =>
    obtain ⟨-, -, characters⟩ := plain
    have allowed : Visible LineParser.textCharacters := by
      have all : LineParser.textCharacters.all (fun c => 0x20 ≤ c.toNat && c.toNat < 0x7f) = true := by decide +kernel
      intro c member
      simpa using List.all_eq_true.mp all c member
    have visible : Visible s.toList := fun c member => allowed c (characters c member).1
    have unclosed : '>' ∉ s.toList := fun member => (characters _ member).2 rfl
    constructor
    case characters => simp [Constant.pieces, Constant.written, spaced_eq]
    case fitted => exact fun gap more fitted _ => .cons (.text visible unclosed _) fitted
  | octal w =>
    have whole : w.written.toList = '(' :: w.designator :: ((octalPadded 8 w.bits).toList ++ [')']) := by
      have written : w.written = "(" ++ String.singleton w.designator ++ octalPadded 8 w.bits ++ ")" := rfl
      simp [written]
    constructor
    case characters => simp [Constant.pieces, Constant.written, spaced_eq]
    case fitted =>
      intro gap more fitted _
      refine .cons ?_ fitted
      rw [whole]
      exact .octal plain.designator (octalDigits_octalPadded plain.bits) _

theorem inPieces_address {a : IndexedAddress} (plain : a.Plain) (writable : ∀ n ∈ a.numbers, isWritable n = true) :
    (∀ gap, charactersOf (a.pieces gap) = (if gap then [' '] else []) ++ a.written.toList) ∧
      ∀ gap, Fitted (a.pieces gap) := by
  have simple := inPieces_simpleAddress plain.target fun n member =>
    writable n (by simp [IndexedAddress.numbers, member])
  cases a with
  | mk address index =>
    cases index with
    | none =>
      have fitted (gap : Bool) := simple.fitted gap [] .nil follows_nil
      simp_all [IndexedAddress.pieces, IndexedAddress.written, simple.characters]
    | some n =>
      have indexed := simple.indexed (plain.index n rfl)
      have written : (IndexedAddress.mk address (some n)).written = address.written ++ ":" ++ toString n :=
        String.append_assoc.symm
      rw [written]
      exact ⟨fun gap => (indexed gap).1, fun gap => (indexed gap).2⟩

end

/-! ## Words in pieces -/

def Piece.mnemonic (m : String) (accumulator : Option Nat) : Piece :=
  ⟨true, (m ++ suffix accumulator).toList, .identifier (m ++ suffix accumulator)⟩

def Content.pieces : Content → List Piece
  | .integer n => if 0 ≤ n then [.number true n.natAbs] else (Constant.integer n).pieces true
  | .real _ => []
  | .text s => (Constant.text s).pieces true
  | .octal w => (Constant.octal w).pieces true
  | .take m acc o => .mnemonic m acc :: o.pieces true
  | .put m acc a => .mnemonic m acc :: a.pieces true
  | .loadNumber acc a n => .mnemonic "LDN" acc :: (a.pieces true ++ indexPieces n)
  | .loadRegister acc o n => .mnemonic "LDR" acc :: (o.pieces true ++ indexPieces n)
  | .library m => [.mnemonic m none]

/-- The text stands after a blank in these pieces. -/
structure Spelled (text : String) (pieces : List Piece) : Prop where
  characters : charactersOf pieces = ' ' :: text.toList
  fitted : Fitted pieces

theorem InPieces.spelled {text : String} {pieces : Bool → List Piece} (inPieces : InPieces text pieces) :
    Spelled text (pieces true) := by
  refine ⟨inPieces.characters true, ?_⟩
  have fitted := inPieces.fitted true [] .nil follows_nil
  rwa [List.append_nil] at fitted

theorem InPieces.spelled_index {text : String} {pieces : Bool → List Piece} (inPieces : InPieces text pieces)
    {n : Nat} (short : IsIndex n) : Spelled (text ++ ":" ++ toString n) (pieces true ++ indexPieces n) :=
  ⟨(inPieces.indexed short true).1, (inPieces.indexed short true).2⟩

/-- A mnemonic and its operand. -/
theorem Spelled.mnemonic {text : String} {pieces : List Piece} (spelled : Spelled text pieces) {m : String} {g : Group}
    (grouped : Vocabulary.group? m = some g) {acc : Option Nat} (known : Named acc) :
    Spelled (m ++ suffix acc ++ " " ++ text) (.mnemonic m acc :: pieces) := by
  constructor
  case characters => simp [Piece.mnemonic, spaced_eq, spelled.characters]
  case fitted =>
    refine .cons (.name (Vocabulary.isName_suffix grouped known) ?_) spelled.fitted
    rw [spelled.characters]
    exact endsName_cons rfl

/-- An operand is spelled by its pieces. -/
theorem spelled_operand {o : Operand} (plain : o.Plain) (writable : ∀ n ∈ o.numbers, isWritable n = true) :
    Spelled o.written (o.pieces true) := by
  cases o with
  | address a =>
    obtain ⟨characters, fitted⟩ := inPieces_address plain writable
    exact ⟨characters true, fitted true⟩
  | constant c => exact (inPieces_constant plain).spelled

theorem inPieces_loadOperand {o : LoadOperand} (plain : o.Plain) (writable : ∀ n ∈ o.numbers, isWritable n = true) :
    InPieces o.written fun gap => o.pieces gap := by
  cases o with
  | address a => exact inPieces_simpleAddress plain writable
  | constant c => exact inPieces_constant plain

/-- The word of a line is spelled by its pieces. -/
theorem spelled_content {c : Content} (plain : c.Plain) (writable : ∀ n ∈ c.numbers, isWritable n = true) :
    Spelled c.written c.pieces := by
  cases c with
  | real x => exact plain.elim
  | integer n =>
    by_cases positive : 0 ≤ n
    · have fits := isWritable_natAbs plain
      have written : (Content.integer n).written = toString n.natAbs := toString_of_nonneg positive
      rw [written, Content.pieces, if_pos positive]
      exact ⟨by simp [Piece.number, spaced_eq], .cons (.number fits nofun) .nil⟩
    · have written : (Content.integer n).written = (Constant.integer n).written := by
        rw [written_integer, if_neg positive]
        exact toString_of_neg positive
      rw [written, Content.pieces, if_neg positive]
      exact (inPieces_constant (c := .integer n) plain).spelled
  | text s => exact (inPieces_constant (c := .text s) plain).spelled
  | octal w => exact (inPieces_constant (c := .octal w) plain).spelled
  | take m acc o =>
    obtain ⟨grouped, known, plain⟩ := plain
    have operand := spelled_operand plain fun n member => writable n (by simp [Content.numbers, member])
    exact operand.mnemonic grouped known
  | put m acc a =>
    obtain ⟨grouped, known, plain⟩ := plain
    have operand : Spelled (Operand.address a).written ((Operand.address a).pieces true) :=
      spelled_operand plain fun n member => writable n (by simp_all [Content.numbers, Operand.numbers])
    exact operand.mnemonic grouped known
  | loadNumber acc a n =>
    obtain ⟨known, plain, short⟩ := plain
    have operand := inPieces_simpleAddress plain fun n member => writable n (by simp [Content.numbers, member])
    exact (operand.spelled_index short).mnemonic rfl known
  | loadRegister acc o n =>
    obtain ⟨known, plain, short⟩ := plain
    have operand := inPieces_loadOperand plain fun n member => writable n (by simp [Content.numbers, member])
    exact (operand.spelled_index short).mnemonic rfl known
  | library m =>
    have named : IsName (m ++ suffix none) := Vocabulary.isName_suffix plain nofun
    refine ⟨?_, .cons (.name named nofun) .nil⟩
    simp [Content.pieces, Piece.mnemonic, spaced_eq, Vocabulary.suffix_none, Content.written]

end WordMachine.Legacy
