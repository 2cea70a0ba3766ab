import WordMachine.Proofs.Assembly.Faithful
import WordMachine.Proofs.Source.WrittenInstruction

/-!
# A disassembly is assembled to what it was made from

Instruction words are written one to a line, in any order, each after its location. The parser reads from
every line the location and the fields of its word, so the plan of the lines is the list of locations, the
program is well-formed as soon as these are distinct, and encoding gives back the words.
-/
namespace WordMachine

open Source

def disassembled (entry : Fin 2048 × BitVec 24) : String :=
  instructionLine entry.1.val (.ofBits entry.2)

def placedWord (entry : Fin 2048 × BitVec 24) : Int × Word :=
  (entry.1.val, ⟨.instruction, entry.2⟩)

/-- A line that puts an instruction word at a location. -/
structure Puts (entry : Fin 2048 × BitVec 24) (line : Line) : Prop where
  location : line.location = some entry.1.val
  label : line.label = none
  content : ∃ column, line.content = some (.statement (statementOf (.ofBits entry.2) column))

/-! ## Reading -/

/-- A source whose lines are those of a disassembly is read without complaint or remark. -/
theorem parseSource_disassembled {entries : List (Fin 2048 × BitVec 24)} {source : String}
    (written : Text.lines source = entries.map disassembled) (file : String) :
    ∃ parsed, parseSource source file = ⟨.ok parsed, []⟩ ∧ parsed.ok = true ∧
      List.Forall₂ Puts entries parsed.lines := by
  refine parseSource_of_readAs ?_ written
  rw [List.forall₂_map_right_iff, List.forall₂_same]
  intro entry _ number
  have small : entry.1.val < 10 ^ 4 := Nat.lt_trans entry.1.isLt (by decide)
  obtain ⟨column, parsed⟩ := parse_instructionLine small (.ofBits entry.2) file number
  exact ⟨_, parsed, rfl, rfl, column, rfl⟩

/-! ## The plan -/

section

variable {entries : List (Fin 2048 × BitVec 24)} {lines : List Line}
  (puts : List.Forall₂ Puts entries lines)
include puts

theorem labelNames_of_puts : labelNames lines = [] := by
  induction puts with
  | nil => rfl
  | cons first _ ih => simpa [labelNames, first.label] using ih

theorem constantOperands_of_puts : constantOperands lines = [] := by
  induction puts with
  | nil => rfl
  | cons first _ ih =>
    obtain ⟨column, content⟩ := first.content
    simpa [constantOperands, content, statementOf, Content.literal?] using ih

theorem wordLocations_of_puts (counter : Int) :
    wordLocations counter lines = entries.map fun entry => (entry.1.val : Int) := by
  induction puts generalizing counter with
  | nil => rfl
  | @cons entry line _ rest first _ ih =>
    obtain ⟨column, content⟩ := first.content
    have emits : line.emits = true := by simp [Line.emits, content]
    have here : line.here counter = entry.1.val := by simp [Line.here, first.location]
    have later := ih (line.next counter)
    rw [wordLocations] at later ⊢
    rw [planned, List.filterMap_cons, List.map_cons, later]
    simp [emits, here]

end

/-! ## Encoding -/

/-- The fields that a statement says leave no choice of the instruction. -/
theorem eq_of_says {i made : Instruction} {column : Nat}
    (same : Says (statementOf i column) i.address made) : made = i := by
  obtain ⟨mnemonic, accumulator, index, indirect, address⟩ := same
  have register := Instruction.index_eq_of_indexRegister? index
  obtain ⟨m, a, x, flag, page, offset⟩ := i
  obtain ⟨m', a', x', flag', page', offset'⟩ := made
  have low := offset.isLt
  have low' := offset'.isLt
  simp only [Instruction.address, pageSize] at address
  obtain rfl : m' = m := mnemonic
  obtain rfl : a' = a := Fin.ext accumulator
  obtain rfl : flag' = flag := indirect
  obtain rfl : page' = page := Fin.ext (by omega)
  obtain rfl : offset' = offset := Fin.ext (by omega)
  obtain rfl : x' = x := register
  rfl

theorem index?_statementOf {i : Instruction} {column n : Nat}
    (register : (statementOf i column).index? = some n) : 1 ≤ n ∧ n ≤ 7 := by
  obtain ⟨x, named, rfl⟩ := Option.map_eq_some_iff.mp register
  unfold Instruction.indexRegister? at named
  split at named
  · cases named
  next other =>
    cases named
    have positive : i.index.val ≠ 0 := fun zero => other (Fin.ext zero)
    omega

theorem encodable_statementOf (lines : List Line) (i : Instruction) (column : Nat) :
    Encodable {} lines (statementOf i column) where
  label := nofun
  accumulator := Nat.le_of_lt_succ i.accumulator.isLt
  index _ := index?_statementOf
  address address named := by
    have reach := address_lt i
    cases named
    show 0 ≤ (i.address : Int) ∧ (i.address : Int) ≤ min 2048 2048 - 1
    omega

/-- The word of the statement is the word of the instruction. -/
theorem statement_statementOf (l : Layout) (i : Instruction) (column : Nat) :
    Encoding.statement {} l (statementOf i column) = .ok i.encode := by
  have reach := address_lt i
  have fits : (Encoding.draft (statementOf i column) i.address).Fits :=
    Encoding.draft_fits_iff.mpr
      ⟨Nat.le_of_lt_succ i.accumulator.isLt, fun _ => index?_statementOf, by omega, by omega⟩
  obtain ⟨made, checked, -⟩ := InstructionDraft.check_of_fits fits
  obtain rfl := eq_of_says (Encoding.says_of_check checked)
  have inside : checkField "address" (made.address : Int) 0 2047 = .ok (made.address : Int) :=
    checkField_eq_ok_iff.mpr ⟨rfl, by omega, by omega⟩
  have resolved : Encoding.resolve {} l (statementOf made column).operand = .ok (made.address, column) := rfl
  simp [Encoding.statement, resolved, inside, checked, Except.mapError, bind, Except.bind, pure, Except.pure]

/-! ## The program -/

section

variable {entries : List (Fin 2048 × BitVec 24)} {lines : List Line}
  (puts : List.Forall₂ Puts entries lines)
include puts

theorem admitted_of_puts : ∀ line ∈ lines, line.Admitted := by
  intro line member c present
  obtain ⟨entry, -, first⟩ := exists_of_forall₂ puts member
  obtain ⟨column, content⟩ := first.content
  rw [content] at present
  cases present
  exact ⟨nofun, nofun⟩

/-- Lines with distinct locations make a well-formed program. -/
theorem wellFormed_of_puts (distinct : (entries.map Prod.fst).Nodup) : WellFormed {} lines := by
  have places := wordLocations_of_puts puts 8
  have inside : ∀ here ∈ wordLocations 8 lines, 0 ≤ here ∧ here ≤ 2047 := by
    intro here member
    rw [places] at member
    obtain ⟨entry, -, rfl⟩ := List.mem_map.mp member
    omega
  have keys : literalKeys lines = [] := by
    rw [literalKeys, constantOperands_of_puts puts]
    rfl
  refine ⟨?_, ?_, inside, ?_, ?_⟩
  · rw [labelNames_of_puts puts]
    exact List.nodup_nil
  · show (wordLocations 8 lines).Nodup
    have locations := distinct.map (f := fun location : Fin 2048 => (location.val : Int))
      fun a b same => Fin.ext (Int.ofNat.inj same)
    rw [List.map_map] at locations
    rw [places]
    exact locations
  · intro s member
    obtain ⟨line, place, present⟩ := mem_statements.mp member
    obtain ⟨entry, -, first⟩ := exists_of_forall₂ puts place
    obtain ⟨column, content⟩ := first.content
    rw [content] at present
    cases present
    exact encodable_statementOf lines _ column
  · intro here member
    rw [keys]
    have bounds := inside here member
    show here < 2048 - ((0 : Nat) : Int)
    omega

/-- The words of the plan are those of the disassembly. -/
theorem wordsOf_of_puts (l : Layout) (counter : Int) :
    ((planned counter lines).flatMap fun (line, here) => Encoding.wordsOf {} l line here).map
      (fun w => (w.location, w.word)) = entries.map placedWord := by
  induction puts generalizing counter with
  | nil => rfl
  | @cons entry line _ rest first _ ih =>
    obtain ⟨column, content⟩ := first.content
    have here : line.here counter = entry.1.val := by simp [Line.here, first.location]
    have encoded : Encoding.wordsOf {} l line entry.1.val =
        [⟨entry.1.val, ⟨.instruction, entry.2⟩, line.number⟩] := by
      simp [Encoding.wordsOf, content, Encoding.content, statement_statementOf, Instruction.encode_ofBits,
        Except.mapError, Except.toOption]
    rw [planned, List.flatMap_cons, List.map_append, ih, here]
    dsimp only
    rw [encoded]
    rfl

theorem image_of_puts (file : String) : (assembled {} lines file).literals = [] ∧
    (assembled {} lines file).image.Perm (entries.map placedWord) := by
  have literals : (assembled {} lines file).literals = [] := by
    simp [assembled, Layout.ofPlan, constantOperands_of_puts puts]
  refine ⟨literals, ?_⟩
  rw [Assembly.image, literals, List.nil_append, ← wordsOf_of_puts puts (Layout.ofPlan {} lines) 8]
  exact (List.mergeSort_perm _ _).map _

end

/-! ## Assembling again -/

/-- The lines of a disassembly put each word back at its location. -/
theorem assembleSource_disassembled {entries : List (Fin 2048 × BitVec 24)}
    (distinct : (entries.map Prod.fst).Nodup) {source : String}
    (written : Text.lines source = entries.map disassembled) (file : String) :
    ∃ a, assembleSource {} source file = ⟨.ok a, []⟩ ∧ a.literals = [] ∧
      a.image.Perm (entries.map placedWord) := by
  obtain ⟨parsed, read, clean, puts⟩ := parseSource_disassembled written file
  have made : (generate {} parsed.lines file).outcome = .ok (assembled {} parsed.lines file) :=
    generate_of_wellFormed (admitted_of_puts puts) (wellFormed_of_puts puts distinct)
  exact ⟨assembled {} parsed.lines file,
    assembleSource_of_generate read clean made (Text.isWritable_of_lt (n := 8) (by decide)), image_of_puts puts file⟩

/-- The source of a disassembly: the lines with a line feed between them, or after each of them, or whatever
else has these lines. It is assembled without complaint or remark, allocates no literals, and has the words
it was made from where they were. -/
theorem disassembly_reassembles {entries : List (Fin 2048 × BitVec 24)}
    (distinct : (entries.map Prod.fst).Nodup) :
    Text.lines ("\n".intercalate (entries.map disassembled)) = entries.map disassembled ∧
    Text.lines (String.join ((entries.map disassembled).map (· ++ "\n"))) = entries.map disassembled ∧
    ∀ source file, Text.lines source = entries.map disassembled →
      ∃ a, assembleSource {} source file = ⟨.ok a, []⟩ ∧ a.literals = [] ∧
        a.image.Perm (entries.map placedWord) := by
  have visible : ∀ t ∈ entries.map disassembled, Text.Visible t.toList := by
    intro t member
    obtain ⟨entry, -, rfl⟩ := List.mem_map.mp member
    exact visible_instructionLine (Nat.lt_trans entry.1.isLt (by decide)) _
  have shown : ∀ t ∈ entries.map disassembled, t ≠ "" := by
    intro t member
    obtain ⟨entry, -, rfl⟩ := List.mem_map.mp member
    exact instructionLine_ne_empty _ _
  exact ⟨Text.lines_separated (fun t member => (visible t member).unbroken) shown,
    Text.lines_terminated fun t member => (visible t member).unbroken,
    fun source file written => assembleSource_disassembled distinct written file⟩

/-- A jump to itself above a call with all fields of its word in use. -/
def scatteredEntries : List (Fin 2048 × BitVec 24) :=
  [(2047, 0o60103777), (0, 0o77777777)]

/-- The words are there again, the call with all of its fields included. -/
theorem scatteredEntries_reassemble :
    (scatteredEntries.map Prod.fst).Nodup ∧
    "\n".intercalate (scatteredEntries.map disassembled) = "2047 JUMP 1, 2047\n0000 EXTRA 7, *2047[7]" ∧
    ∃ a, assembleSource {} "2047 JUMP 1, 2047\n0000 EXTRA 7, *2047[7]" "again" = ⟨.ok a, []⟩ ∧
      a.literals = [] ∧ a.image.Perm (scatteredEntries.map placedWord) := by
  have distinct : (scatteredEntries.map Prod.fst).Nodup := by decide
  have text : "\n".intercalate (scatteredEntries.map disassembled) =
      "2047 JUMP 1, 2047\n0000 EXTRA 7, *2047[7]" := by
    decide +kernel
  obtain ⟨separated, -, again⟩ := disassembly_reassembles distinct
  rw [text] at separated
  exact ⟨distinct, text, again _ _ separated⟩

end WordMachine
