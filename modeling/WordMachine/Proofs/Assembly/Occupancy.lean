import WordMachine.Proofs.Assembly.Faithful

/-!
# How an assembly occupies memory

The words of an assembly stand at rising locations, its literals are one block at the top of memory with a
slot for each key, and every memory that is large enough for the assembly and for the accumulators holds
its image and nothing else. From sixteen words of memory on, no literal is an accumulator.
-/
namespace WordMachine

open Source

/-- The assembly fills `size` locations with its words from below and its literals from above. -/
structure Assembly.Occupies (a : Assembly) (size : Int) : Prop where
  increasing : (a.words.map (·.location)).Pairwise (· < ·)
  inside : ∀ x ∈ a.words, 0 ≤ x.location ∧ x.location ≤ size - 1
  descending : ∀ i (low : i < a.literals.length), a.literals[i].1 = size - 1 - i
  apart : ∀ x ∈ a.words, x.location < size - a.literals.length
  entries : (a.image.map Prod.fst).toFinset.card = a.words.length + a.literals.length
  kept : ∀ entry ∈ a.image, a.word? entry.1 = some entry.2
  loads : ∀ memory, size ≤ memory → 8 ≤ memory → ∃ m, Machine.loadMemory a memory = .ok m ∧
    (m.size : Int) = memory ∧ ∀ location, 0 ≤ location ∧ location < memory →
      m.read location = .ok ((a.word? location).getD Word.zero)
  refused : ∀ memory < 8, Machine.loadMemory a memory = .error (.tooSmall memory)
  clear : 16 ≤ size → ∀ entry ∈ a.literals, 8 ≤ entry.1

def Assembly.addressAt? (a : Assembly) (location : Int) : Option Int :=
  (a.word? location).bind fun w => (Instruction.decode w).toOption.map fun i => (i.address : Int)

/-- The line that the plan puts at a location has a constant operand. -/
def ConstantAt (origin : Int) (lines : List Line) (here : Int) (c : Constant) : Prop :=
  ∃ line s column, (line, here) ∈ planned origin lines ∧ line.content = some (.statement s) ∧
    s.operand = some (.constant c column)

variable {settings : AssemblySettings} {lines : List Line} {file : String} {a : Assembly}

section

variable (admitted : ∀ line ∈ lines, line.Admitted) (formed : WellFormed settings lines)
include admitted formed

/-- Every entry of the image is inside memory: where there are literals there are words below them. -/
theorem image_inside : ∀ entry ∈ (assembled settings lines file).image,
    0 ≤ entry.1 ∧ entry.1 < settings.memorySize := by
  intro entry member
  rcases List.mem_append.mp member with literal | word
  · have bounds := slot_bounds admitted literal
    have half := two_mul_literals_le formed
    omega
  · obtain ⟨x, stands, rfl⟩ := List.mem_map.mp word
    have bounds := location_bounds admitted formed stands
    exact ⟨bounds.1, by dsimp only; omega⟩

/-- A constant operand is encoded as the slot of its key. -/
theorem addressAt?_of_constantAt {here : Int} {c : Constant}
    (constant : ConstantAt settings.origin lines here c) :
    ∃ i : Nat, (literalKeys lines)[i]? = some c.key ∧
      (assembled settings lines file).addressAt? here = some (settings.memorySize - 1 - i) := by
  obtain ⟨line, s, column, place, present, operand⟩ := constant
  have mine := mem_statements.mpr ⟨line, mem_of_mem_planned place, present⟩
  obtain ⟨w, encoded, (found : (assembled settings lines file).word? here = some w)⟩ :=
    word?_of_planned admitted formed place present
  obtain ⟨address, named, -, instruction, checked, rfl⟩ :=
    (Encoding.statement_eq_ok_iff formed.labels_distinct admitted mine).mp (mapError_eq_ok_iff.mp encoded)
  have meaning := Encoding.says_of_check checked
  rw [operand] at named
  cases named with
  | @literal c i column slot =>
    refine ⟨i, slot, ?_⟩
    rw [Assembly.addressAt?, found, Option.bind_some, Instruction.decode_encode]
    exact congrArg some meaning.address

/-- Two constant operands share a slot exactly when they have one key. -/
theorem slots_eq_iff {here there : Int} {c d : Constant}
    (first : ConstantAt settings.origin lines here c) (second : ConstantAt settings.origin lines there d) :
    ∃ slot slot', (assembled settings lines file).addressAt? here = some slot ∧
      (assembled settings lines file).addressAt? there = some slot' ∧ (slot = slot' ↔ c.key = d.key) := by
  obtain ⟨i, key, (address : (assembled settings lines file).addressAt? here = _)⟩ :=
    addressAt?_of_constantAt admitted formed first
  obtain ⟨j, key', (address' : (assembled settings lines file).addressAt? there = _)⟩ :=
    addressAt?_of_constantAt admitted formed second
  refine ⟨_, _, address, address', ?_⟩
  constructor
  · intro same
    have equal : i = j := by omega
    subst equal
    rw [key] at key'
    exact Option.some.inj key'
  · intro same
    obtain ⟨low, found⟩ := List.getElem?_eq_some_iff.mp key
    obtain ⟨high, found'⟩ := List.getElem?_eq_some_iff.mp key'
    have distinct : (literalKeys lines).Nodup := nodup_eraseDups _
    have equal : i = j := distinct.getElem_inj_iff.mp (by rw [found, found', same])
    rw [equal]

/-- A well-formed program fills memory from both ends. -/
theorem occupies_of_wellFormed : (assembled settings lines file).Occupies settings.memorySize where
  increasing := locations_increase admitted formed
  inside x stands := by
    have bounds := location_bounds admitted formed stands
    omega
  descending i low := by simp [assembled, Layout.slot]
  apart x stands := by
    rw [length_literals_assembled admitted]
    exact (location_bounds admitted formed stands).2
  entries := by
    rw [List.toFinset_card_of_nodup (image_distinct admitted formed), List.length_map, Assembly.image,
      List.length_append, List.length_map]
    omega
  kept entry member := Assembly.word?_of_mem (image_distinct admitted formed) member
  loads memory large room := by
    refine Machine.loadMemory_spec room fun entry member => ?_
    have bounds := image_inside admitted formed entry member
    omega
  refused _ small := Machine.loadMemory_of_small _ small
  clear large entry literal := by
    have bounds := slot_bounds admitted literal
    have half := two_mul_literals_le formed
    omega

end

/-- A program that is assembled for some memory is loaded into it, and into every larger one. -/
theorem exists_load_of_assemble {asm : Assembler} {source : String}
    (success : (asm.assemble source file).value.2 = .ok a) {size : Int} (large : asm.settings.memorySize ≤ size)
    (room : 8 ≤ size) (supply : Supply) (traced : Bool) : ∃ m, Machine.load a size supply traced = .ok m := by
  obtain ⟨parsed, read, -, made, -⟩ := generate_of_assemble success
  have admitted := fun line member => (isParsed_of_parseSource read line member).admitted
  obtain ⟨formed, rfl⟩ := assembled_of_ok admitted made
  have occupies := @occupies_of_wellFormed asm.settings parsed.lines file admitted formed
  obtain ⟨memory, loaded, -⟩ := occupies.loads size large room
  exact ⟨_, bind_eq_ok_iff.mpr ⟨memory, loaded, rfl⟩⟩

/-- Every program that is assembled for some memory occupies that memory, and shares the slots of equal
constants in it. -/
theorem assemble_occupies {asm : Assembler} {source : String}
    (success : (asm.assemble source file).value.2 = .ok a) :
    a.Occupies asm.settings.memorySize ∧
    ∃ parsed, (parseSource source file).value = .ok parsed ∧
      ∀ here there c d, ConstantAt asm.settings.origin parsed.lines here c →
        ConstantAt asm.settings.origin parsed.lines there d →
        ∃ slot slot', a.addressAt? here = some slot ∧ a.addressAt? there = some slot' ∧
          (slot = slot' ↔ c.key = d.key) := by
  obtain ⟨parsed, read, whole, made, -⟩ := generate_of_assemble success
  have admitted := fun line member => (isParsed_of_parseSource read line member).admitted
  obtain ⟨formed, rfl⟩ := assembled_of_ok admitted made
  exact ⟨occupies_of_wellFormed admitted formed, parsed, read,
    fun _ _ _ _ first second => slots_eq_iff admitted formed first second⟩

/-- A source whose first two constants are one, the third being of another type. -/
def sharingSource : String :=
  "TAKE +1\nADD +01\nADD +1.0\nSTOP"

set_option maxRecDepth 10000 in
/-- Two literals serve the three constants. -/
theorem sharingSource_occupies :
    ∃ a, ((Assembler.new { memorySize := 16 }).assemble sharingSource "sharing").value.2 = .ok a ∧
      a.Occupies 16 ∧ ∃ parsed, (parseSource sharingSource "sharing").value = .ok parsed ∧
        ∀ here there c d, ConstantAt 8 parsed.lines here c → ConstantAt 8 parsed.lines there d →
          ∃ slot slot', a.addressAt? here = some slot ∧ a.addressAt? there = some slot' ∧
            (slot = slot' ↔ c.key = d.key) := by
  have accepted : ((Assembler.new { memorySize := 16 }).assemble sharingSource
      "sharing").value.2.isOk = true := by
    decide +kernel
  obtain ⟨a, made⟩ := isOk_iff.mp accepted
  exact ⟨a, made, assemble_occupies made⟩

def emptyProgram : Assembly where
  origin := 8
  words := []
  literals := []
  labels := []
  listing := []
  file := "<input>"

/-- A memory without room for the accumulators holds no program, not even one that needs no word of it. -/
theorem emptyProgram_needs_accumulators :
    ((Assembler.new { memorySize := 5 }).assemble "" "<input>").value.2 = .ok emptyProgram ∧
    ((Assembler.new {}).assemble "" "<input>").value.2 = .ok emptyProgram ∧
    Machine.loadMemory emptyProgram 5 = .error (.tooSmall 5) :=
  ⟨assemble_of_generate rfl rfl (by cbv) (Text.isWritable_of_lt (n := 8) (by decide)),
    assemble_of_generate rfl rfl (by cbv) (Text.isWritable_of_lt (n := 8) (by decide)), rfl⟩

end WordMachine
