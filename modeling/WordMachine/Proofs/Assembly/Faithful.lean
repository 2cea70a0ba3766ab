import WordMachine.Assembler
import WordMachine.Proofs.Assembly.Assembled

/-!
# The image says what the source says

In the image of every program that is assembled, the word at the location of a line is the word of that line:
a constant is stored as it is, and an instruction decodes to the written mnemonic, registers and flag, with
the address that the labels and the literal table of the assembly give to its operand.
-/
namespace WordMachine

open Source

/-- The location that an assembly gives to an operand: zero if there is none, the written number, the
location of the label, or the slot of a literal in which the image has the word of the constant. -/
inductive Assembly.Gives (a : Assembly) : Option Operand → Int → Prop
  | absent : Gives a none 0
  | number (n : Nat) (index : Option Nat) (indirect : Bool) (column : Nat) :
    Gives a (some (.address ⟨.location n, index, indirect, column⟩)) n
  | label {name : String} {location : Int} (index : Option Nat) (indirect : Bool) (column : Nat)
      (bound : a.locationOf? name = some location) :
    Gives a (some (.address ⟨.label name, index, indirect, column⟩)) location
  | literal {c : Constant} {slot : Int} {w : Word} (column : Nat) (held : c.word = .ok w)
      (allocated : (slot, w) ∈ a.literals) (found : a.word? slot = some w) :
    Gives a (some (.constant c column)) slot

def Assembly.Holds (a : Assembly) (w : Word) : Content → Prop
  | .constant c => c.word = .ok w
  | .statement s => ∃ i address, Instruction.decode w = .ok i ∧ Says s address i ∧
    a.Gives s.operand address ∧ ∀ r, s.routine = some r → s.mnemonic = .extra ∧ address = r.number

variable {settings : AssemblySettings} {lines : List Line} {file : String} {a : Assembly}

/-! ## Successful runs -/

/-- There is one assembly that a well-formed program can have. -/
theorem assembled_of_ok (admitted : ∀ line ∈ lines, line.Admitted)
    (success : (generate settings lines file).outcome = .ok a) :
    WellFormed settings lines ∧ a = assembled settings lines file := by
  have formed := wellFormed_of_clean admitted (clean_of_ok success)
  rw [generate_of_wellFormed admitted formed] at success
  exact ⟨formed, (Except.ok.inj success).symm⟩

/-- A source is assembled only if all of its lines are read and the passes accept them. -/
theorem generate_of_assemble {asm : Assembler} {source : String}
    (success : (asm.assemble source file).value.2 = .ok a) :
    ∃ parsed, (parseSource source file).value = .ok parsed ∧ parsed.errors = [] ∧
      (generate asm.settings parsed.lines file).outcome = .ok a ∧ Text.isWritable asm.settings.origin = true := by
  simp only [Assembler.assemble, Warned.map] at success
  split at success
  · cases success
  next parsed read =>
    split at success
    next whole =>
      split at success
      next made outcome =>
        dsimp only at success
        split at success
        next origin =>
          cases success
          exact ⟨parsed, read, List.isEmpty_iff.mp whole, outcome, origin⟩
        · cases success
      · cases success
      · cases success
    · cases success

theorem assemble_of_generate {asm : Assembler} {source : String} {parsed : ParsedFile Line}
    (read : (parseSource source file).value = .ok parsed) (whole : parsed.ok = true)
    (made : (generate asm.settings parsed.lines file).outcome = .ok a)
    (origin : Text.isWritable asm.settings.origin = true) : (asm.assemble source file).value.2 = .ok a := by
  simp [Assembler.assemble, Warned.map, read, whole, made, origin]

theorem assembleSource_of_generate {source : String} {parsed : ParsedFile Line}
    (read : parseSource source file = { value := .ok parsed }) (whole : parsed.ok = true)
    (made : (generate settings parsed.lines file).outcome = .ok a)
    (origin : Text.isWritable settings.origin = true) : assembleSource settings source file = ⟨.ok a, []⟩ := by
  simp [assembleSource, Assembler.assemble, Assembler.new, Warned.map, read, whole, made, origin]

/-! ## Lines and their words -/

section

variable (admitted : ∀ line ∈ lines, line.Admitted) (formed : WellFormed settings lines)
include admitted formed

/-- The assembly gives an operand the location that it names in the plan. -/
theorem gives_of_names {s : Statement} {address : Int} (member : s ∈ statements lines)
    (named : Names settings lines s.operand address) :
    (assembled settings lines file).Gives s.operand address := by
  cases operand : s.operand with
  | none =>
    rw [operand] at named
    cases named
    exact .absent
  | some written =>
    rw [operand] at named
    cases named with
    | number => exact .number _ _ _ _
    | label index indirect column place defined =>
      refine .label _ _ _ ?_
      have bound := Layout.binding?_ofPlan formed.labels_distinct place defined
      simp only [Assembly.locationOf?, assembled, Layout.lookup_labelTable, bound, Option.map_some]
    | @literal c i column slot =>
      have fits := Layout.constantOperand_fits admitted (mem_constantOperands member operand)
      have allocated : (settings.memorySize - 1 - i, c.stored) ∈ (assembled settings lines file).literals :=
        literal_of_key admitted fits slot
      exact .literal _ (Constant.word_eq_stored fits) allocated (word?_of_literal admitted formed allocated)

/-- The image has the word of each line at the location of the line. -/
theorem holds_of_planned {line : Line} {here : Int} {c : Content}
    (place : (line, here) ∈ planned settings.origin lines) (present : line.content = some c) :
    ∃ w, (assembled settings lines file).word? here = some w ∧
      (assembled settings lines file).Holds w c := by
  have member := mem_of_mem_planned place
  obtain ⟨w, encoded, found⟩ := word?_of_planned admitted formed place present
  refine ⟨w, found, ?_⟩
  cases c with
  | constant c =>
    cases encoded
    exact Constant.word_eq_stored (admitted line member _ present)
  | statement s =>
    have mine := mem_statements.mpr ⟨line, member, present⟩
    obtain ⟨address, named, -, i, checked, rfl⟩ :=
      (Encoding.statement_eq_ok_iff formed.labels_distinct admitted mine).mp (mapError_eq_ok_iff.mp encoded)
    refine ⟨i, address, Instruction.decode_encode i, Encoding.says_of_check checked,
      gives_of_names admitted formed mine named, fun r called => ?_⟩
    obtain ⟨mnemonic, operand⟩ := (admitted line member _ present).2 r called
    rw [operand] at named
    cases named
    exact ⟨mnemonic, rfl⟩

end

/-- Whatever the origin, the memory size and the limit on problems: when a source is assembled, the image
has at the location of each line with a word a word that says what the line says. -/
theorem assemble_faithful {asm : Assembler} {source : String}
    (success : (asm.assemble source file).value.2 = .ok a) :
    ∃ parsed, (parseSource source file).value = .ok parsed ∧ parsed.errors = [] ∧
      ∀ line here c, (line, here) ∈ planned asm.settings.origin parsed.lines → line.content = some c →
        ∃ w, a.word? here = some w ∧ a.Holds w c := by
  obtain ⟨parsed, read, whole, made, -⟩ := generate_of_assemble success
  have admitted := fun line member => (isParsed_of_parseSource read line member).admitted
  obtain ⟨formed, rfl⟩ := assembled_of_ok admitted made
  exact ⟨parsed, read, whole, fun line here c place present =>
    holds_of_planned admitted formed place present⟩

/-- A source with a label before its definition, a literal, an index register, a routine and a number. -/
def mixedSource : String :=
  "START: TAKE TOTAL\nADD 2, +3\nJUMP *START[1]\nREAD\nTOTAL: 12"

set_option maxRecDepth 10000 in
/-- The image of the source has a word for each of its lines, which says what the line says. -/
theorem mixedSource_faithful :
    ∃ a, ((Assembler.new {}).assemble mixedSource "mixed").value.2 = .ok a ∧
      ∃ parsed, (parseSource mixedSource "mixed").value = .ok parsed ∧ parsed.errors = [] ∧
        ∀ line here c, (line, here) ∈ planned 8 parsed.lines → line.content = some c →
          ∃ w, a.word? here = some w ∧ a.Holds w c := by
  have accepted : ((Assembler.new {}).assemble mixedSource "mixed").value.2.isOk = true := by
    decide +kernel
  obtain ⟨a, made⟩ := isOk_iff.mp accepted
  exact ⟨a, made, assemble_faithful made⟩

end WordMachine
