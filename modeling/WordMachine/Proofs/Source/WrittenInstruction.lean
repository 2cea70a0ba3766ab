import WordMachine.Proofs.Source.WrittenLine

/-!
# Instructions written as source lines

A location in four digits and the text of an instruction make a source line. Its parts are those of a line with
this location and with a statement that has the fields of the instruction, and the parser reads that line from
them.
-/
namespace WordMachine.Source

def instructionLine (location : Nat) (i : Instruction) : String :=
  s!"{Text.locationText location} {i.text}"

def addressOf (i : Instruction) (column : Nat) : AddressOperand :=
  ⟨.location i.address, i.indexRegister?.map Fin.val, i.indirect, column⟩

/-- The statement that says what an instruction does, with the operand at some column. -/
def statementOf (i : Instruction) (column : Nat) : Statement where
  mnemonic := i.mnemonic
  accumulator := some i.accumulator.val
  operand := some (.address ⟨.location i.address, i.indexRegister?.map Fin.val, i.indirect, column⟩)
  routine := none

/-! ## Characters -/

theorem toList_instructionLine (location : Nat) (i : Instruction) :
    (instructionLine location i).toList = Token.lineOf [(Text.locationText location).toList, i.mnemonic.name.toList,
      (toString i.accumulator.val).toList ++ [','], (addressOf i 0).written.toList] none := by
  have same : ∀ s : String, toString s = s := fun _ => rfl
  unfold instructionLine Instruction.text AddressOperand.written addressOf Target.written
  cases i.indirect <;> cases i.indexRegister? <;> simp [same, Token.lineOf]

theorem instructionLine_ne_empty (location : Nat) (i : Instruction) : instructionLine location i ≠ "" := by
  intro empty
  have characters := toList_instructionLine location i
  rw [empty] at characters
  simp [Token.lineOf] at characters

/-- The name of a mnemonic consists of capital letters. -/
theorem isUpper_of_mem_name {m : Mnemonic} {c : Char} (member : c ∈ m.name.toList) : c.isUpper = true := by
  have capitals : m.name.toList.all Char.isUpper = true := by cases m <;> decide
  exact List.all_eq_true.mp capitals c member

/-! ## Parts -/

open Token

theorem address_lt (i : Instruction) : i.address < 2048 := by
  have page := i.page.isLt
  have offset := i.offset.isLt
  unfold Instruction.address pageSize
  omega

/-- The number of an accumulator or index register is one digit. -/
theorem writes_register (n : Fin 8) : Text.Writes (toString n.val).toList n.val :=
  .toString (Nat.lt_trans n.isLt (by decide))

theorem isWritable_addressOf (i : Instruction) :
    ∀ n ∈ Operand.numbers (.address (addressOf i 0)), Text.isWritable n = true := by
  have address : Text.isWritable i.address = true :=
    Text.isWritable_of_lt (Nat.lt_trans (address_lt i) (by decide))
  have register : ∀ n : Fin 8, Text.isWritable n.val = true := fun n =>
    Text.isWritable_of_lt (Nat.lt_trans n.isLt (by decide))
  cases present : i.indexRegister? with
  | none => simp [Operand.numbers, addressOf, present, address]
  | some n => simp [Operand.numbers, addressOf, present, address, register]

/-- What an instruction does can be written without the name of a routine. -/
theorem plain_statementOf (i : Instruction) (column : Nat) : (Content.statement (statementOf i column)).Plain := by
  refine ⟨rfl, ?_⟩
  rintro _ ⟨⟩ _ ⟨⟩

/-- The line is read as what it was written from. -/
theorem parse_instructionLine {location : Nat} (small : location < 10 ^ 4) (i : Instruction) (file : String)
    (number : Int) : ∃ column, Line.parse (instructionLine location i) file number =
      .ok ⟨.ok { number, text := instructionLine location i, location := some location, label := none,
                 content := some (.statement (statementOf i column)), comment := none, file }, []⟩ := by
  let line : Line := ⟨number, "", some location, none, some (.statement (statementOf i 0)), none, file⟩
  have plain : line.Plain := by
    constructor
    case label => nofun
    case content =>
      rintro _ ⟨⟩
      exact plain_statementOf i 0
    case comment => nofun
    case located => exact fun _ => Or.inr rfl
  have operand : Part (addressOf i 0).written.toList (addressOf i 0).kinds := part_address nofun (isWritable_addressOf i)
  have parts : List.Forall₂ Part [(Text.locationText location).toList, i.mnemonic.name.toList,
      (toString i.accumulator.val).toList ++ [','], (addressOf i 0).written.toList] line.kinds :=
    .cons (part_number (Text.Writes.locationText small)) (.cons (part_name (isName_mnemonic _))
      (.cons (part_accumulator (writes_register _)) (.cons operand .nil)))
  exact parse_of_parts plain parts (toList_instructionLine location i) file number

/-! ## Lines of a file -/

theorem visible_addressOf (i : Instruction) : Text.Visible (addressOf i 0).written.toList := by
  have digits : ∀ n : Nat, Text.Visible (toString n).toList := fun n => .of_isDigit fun c member => by
    rw [Nat.toString_eq_repr, Nat.toList_repr] at member
    exact Nat.isDigit_of_mem_toDigits (by decide) (by decide) member
  have index : Text.Visible (indexText (addressOf i 0).index) := by
    cases (addressOf i 0).index with
    | none => exact nofun
    | some n => exact .cons (by decide) ((digits n).append (.cons (by decide) nofun))
  have address := (digits i.address).append index
  rw [toList_address]
  cases (addressOf i 0).indirect with
  | false => exact address
  | true => exact .cons (by decide) address

theorem visible_instructionLine {location : Nat} (small : location < 10 ^ 4) (i : Instruction) :
    Text.Visible (instructionLine location i).toList := by
  have operand : Text.Visible (',' :: ' ' :: (addressOf i 0).written.toList) :=
    .cons (by decide) (.cons (by decide) (visible_addressOf i))
  have name : Text.Visible i.mnemonic.name.toList := .of_isUpper fun _ => isUpper_of_mem_name
  have fields := (Text.Visible.of_isDigit (writes_register i.accumulator).digits).append operand
  have place := Text.Visible.of_isDigit (Text.Writes.locationText small).digits
  have blank : 0x20 ≤ ' '.toNat ∧ ' '.toNat < 0x7f := by decide
  have whole := place.append (.cons blank (name.append (.cons blank fields)))
  rw [toList_instructionLine]
  simpa [lineOf] using whole

end WordMachine.Source
