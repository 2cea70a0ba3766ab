import WordMachine.Proofs.Assembly.Occupancy
import WordMachine.Proofs.Source.PlainLine

/-!
# Programs that are written straight down

A program of statements alone, with neither labels nor locations, fills memory from location 8 on, one word for
each statement. It is assembled if each of its statements fits an instruction and its words leave room for its
literals, and a run of it starts at its first statement.
-/
namespace WordMachine

open Source

/-- A line with nothing but a statement. -/
structure Bare (s : Statement) (line : Line) : Prop where
  location : line.location = none
  label : line.label = none
  content : ∃ column, line.content = some ((Content.statement s).at column)

/-- A statement without a label that fits an instruction, wherever its constant is. -/
structure Direct (s : Statement) : Prop where
  symbol : s.symbol? = none
  accumulator : s.effectiveAccumulator ≤ 7
  index : ∀ n, s.index? = some n → 1 ≤ n ∧ n ≤ 7
  reach : ∀ n index indirect column, s.operand = some (.address ⟨.location n, index, indirect, column⟩) → n ≤ 2047

def literalsOf (ss : List Statement) : List ConstantKey :=
  ((ss.filterMap fun s => (Content.statement s).literal?).map Constant.key).eraseDups

/-! ## The plan -/

theorem Bare.emits {s : Statement} {line : Line} (bare : Bare s line) : line.emits = true := by
  obtain ⟨column, content⟩ := bare.content
  simp [Line.emits, content]

theorem Bare.here {s : Statement} {line : Line} (bare : Bare s line) (counter : Int) :
    line.here counter = counter := by
  simp [Line.here, bare.location]

theorem Bare.next {s : Statement} {line : Line} (bare : Bare s line) (counter : Int) :
    line.next counter = counter + 1 := by
  simp [Line.next, bare.emits, bare.here]

theorem Bare.literal {s : Statement} {line : Line} (bare : Bare s line) :
    line.content.bind Content.literal? = (Content.statement s).literal? := by
  obtain ⟨column, content⟩ := bare.content
  obtain ⟨mnemonic, accumulator, operand, routine⟩ := s
  rw [content]
  rcases operand with _ | a | c <;> rfl

section

variable {ss : List Statement} {lines : List Line} (bare : List.Forall₂ Bare ss lines)
include bare

theorem labelNames_of_bare : labelNames lines = [] := by
  induction bare with
  | nil => rfl
  | cons first _ ih => simpa [labelNames, first.label] using ih

theorem literalKeys_of_bare : literalKeys lines = literalsOf ss := by
  have same : constantOperands lines = ss.filterMap fun s => (Content.statement s).literal? := by
    induction bare with
    | nil => rfl
    | cons first _ ih =>
      rw [constantOperands] at ih ⊢
      rw [List.filterMap_cons, List.filterMap_cons, first.literal, ih]
  rw [literalKeys, literalsOf, same]

/-- The lines stand one after the other. -/
theorem wordLocations_of_bare (counter : Int) :
    wordLocations counter lines = (List.range ss.length).map fun k : Nat => counter + k := by
  induction bare generalizing counter with
  | nil => rfl
  | cons first _ ih =>
    have later := ih (counter + 1)
    rw [wordLocations] at later ⊢
    rw [planned, List.filterMap_cons, first.next, later, List.length_cons, List.range_succ_eq_map]
    simp [first.emits, first.here, Function.comp_def, add_comm, add_left_comm]

theorem exists_planned_of_bare (counter : Int) {k : Nat} {s : Statement} (stands : ss[k]? = some s) :
    ∃ line, (line, counter + k) ∈ planned counter lines ∧ Bare s line := by
  induction bare generalizing counter k with
  | nil => simp at stands
  | @cons _ line _ rest first _ ih =>
    cases k with
    | zero =>
      obtain rfl := Option.some.inj stands
      exact ⟨line, by simp [planned, first.here], first⟩
    | succ k =>
      obtain ⟨other, place, mine⟩ := ih (counter + 1) stands
      have same : counter + 1 + (k : Int) = counter + ((k + 1 : Nat) : Int) := by omega
      rw [same] at place
      refine ⟨other, ?_, mine⟩
      rw [planned, first.next]
      exact List.mem_cons_of_mem _ place

end

/-! ## The program -/

theorem Direct.at {s : Statement} (direct : Direct s) (column : Nat) :
    Direct { s with operand := s.operand.map (·.at column) } := by
  obtain ⟨symbol, accumulator, index, reach⟩ := direct
  obtain ⟨mnemonic, register, operand, routine⟩ := s
  rcases operand with _ | a | c
  · exact ⟨symbol, accumulator, index, nofun⟩
  · obtain ⟨target, x, indirect, place⟩ := a
    refine ⟨?_, accumulator, index, ?_⟩
    · cases target <;> exact symbol
    · rintro n _ _ _ ⟨⟩
      exact reach n x indirect place rfl
  · exact ⟨rfl, accumulator, nofun, nofun⟩

theorem Direct.encodable {s : Statement} {lines : List Line} (direct : Direct s)
    (room : (literalKeys lines).length ≤ 2048) : Encodable {} lines s where
  label name symbol := by simp [direct.symbol] at symbol
  accumulator := direct.accumulator
  index := direct.index
  address address named := by
    have memory : ({} : AssemblySettings).memorySize = 2048 := rfl
    generalize operand : s.operand = written at named
    cases named with
    | absent => omega
    | number n index indirect column =>
      have reach := direct.reach n index indirect column operand
      omega
    | label index indirect column =>
      have symbol := direct.symbol
      simp [Statement.symbol?, operand] at symbol
    | literal column slot =>
      obtain ⟨low, -⟩ := List.getElem?_eq_some_iff.mp slot
      omega

/-- The words stand from location 8 on. -/
theorem bounds_of_bare {ss : List Statement} {lines : List Line} (bare : List.Forall₂ Bare ss lines) {here : Int}
    (member : here ∈ wordLocations 8 lines) : 8 ≤ here ∧ here < 8 + ss.length := by
  rw [wordLocations_of_bare bare] at member
  obtain ⟨k, low, rfl⟩ := List.mem_map.mp member
  have low := List.mem_range.mp low
  omega

section

variable {ss : List Statement} {lines : List Line} (file : String) (bare : List.Forall₂ Bare ss lines)
  (direct : ∀ s ∈ ss, Direct s) (room : ss.length + (literalsOf ss).length ≤ 2040)
include bare direct room

/-- A program of bare lines is well-formed if it fits in memory with its literals. -/
theorem wellFormed_of_bare : WellFormed {} lines := by
  have keys := literalKeys_of_bare bare
  have memory : ({} : AssemblySettings).memorySize = 2048 := rfl
  constructor
  case labels_distinct =>
    rw [labelNames_of_bare bare]
    exact List.nodup_nil
  case locations_distinct =>
    rw [wordLocations_of_bare bare]
    exact List.nodup_range.map fun i j same => by simpa using same
  case locations_inside =>
    intro here member
    have bounds := bounds_of_bare bare member
    omega
  case statements =>
    intro s member
    obtain ⟨line, place, present⟩ := mem_statements.mp member
    obtain ⟨written, found, mine⟩ := exists_of_forall₂ bare place
    obtain ⟨column, content⟩ := mine.content
    rw [content] at present
    cases present
    exact ((direct written found).at column).encodable (by rw [keys]; omega)
  case below_literals =>
    intro here member
    have bounds := bounds_of_bare bare member
    rw [keys]
    omega

variable (admitted : ∀ line ∈ lines, line.Admitted)
include admitted

/-- The image has the word of each statement. -/
theorem holds_of_bare {k : Nat} {s : Statement} (stands : ss[k]? = some s) :
    ∃ column w, (assembled {} lines file).word? (8 + k) = some w ∧
      (assembled {} lines file).Holds w ((Content.statement s).at column) := by
  obtain ⟨line, place, mine⟩ := exists_planned_of_bare bare 8 stands
  obtain ⟨column, content⟩ := mine.content
  exact ⟨column, holds_of_planned admitted (wellFormed_of_bare bare direct room) place content⟩

/-- A run starts at the first statement. -/
theorem entry_of_bare (statements : ss ≠ []) : (assembled {} lines file).entry = some 8 := by
  have formed := wellFormed_of_bare bare direct room
  have locations : ((assembled {} lines file).words.map (·.location)).Perm (wordLocations 8 lines) :=
    locations_perm admitted formed
  have distinct : ((assembled {} lines file).image.map Prod.fst).Nodup := image_distinct admitted formed
  have low := List.length_pos_iff.mpr statements
  rw [Assembly.entry, List.min?_eq_some_iff]
  constructor
  · have first : (8 : Int) ∈ wordLocations 8 lines := by
      rw [wordLocations_of_bare bare]
      exact List.mem_map.mpr ⟨0, List.mem_range.mpr low, rfl⟩
    obtain ⟨x, stands, here⟩ := List.mem_map.mp (locations.mem_iff.mpr first)
    obtain ⟨column, w, found, i, -, decoded, -⟩ :=
      holds_of_bare file bare direct room admitted (List.getElem?_eq_getElem low)
    have kept := Assembly.word?_of_mem distinct (List.mem_append_right _ (List.mem_map_of_mem stands))
    rw [here] at kept
    obtain rfl : x.word = w := Option.some.inj (kept.symm.trans found)
    refine List.mem_map.mpr ⟨x, List.mem_filter.mpr ⟨stands, ?_⟩, here⟩
    exact Instruction.isInstruction_of_decode decoded
  · intro here member
    obtain ⟨x, filtered, rfl⟩ := List.mem_map.mp member
    have stands := (List.mem_filter.mp filtered).1
    exact (bounds_of_bare bare (locations.mem_iff.mp (List.mem_map_of_mem stands))).1

end

/-- A source of bare statements is assembled without complaint or remark. Its assembly occupies memory, starts at
location 8, and has there one word after the other that says what the statements say. -/
theorem assembleSource_of_bare {ss : List Statement} {texts : List String} {source file : String}
    (reads : List.Forall₂ (fun s text => ReadAs file (Bare s) text) ss texts) (direct : ∀ s ∈ ss, Direct s)
    (room : ss.length + (literalsOf ss).length ≤ 2040) (statements : ss ≠ [])
    (written : Text.lines source = texts) :
    ∃ a, assembleSource {} source file = ⟨.ok a, []⟩ ∧ a.Occupies 2048 ∧ a.entry = some 8 ∧
      ∀ (k : Nat) s, ss[k]? = some s → ∃ column w, a.word? (8 + k) = some w ∧
        a.Holds w ((Content.statement s).at column) := by
  obtain ⟨parsed, read, clean, bare⟩ := parseSource_of_readAs reads written
  have admitted : ∀ line ∈ parsed.lines, line.Admitted := fun line member =>
    (isParsed_of_parseSource (by rw [read]) line member).admitted
  have formed := wellFormed_of_bare bare direct room
  have made : (generate {} parsed.lines file).outcome = .ok (assembled {} parsed.lines file) :=
    generate_of_wellFormed admitted formed
  exact ⟨assembled {} parsed.lines file,
    assembleSource_of_generate read clean made (Text.isWritable_of_lt (n := 8) (by decide)),
    occupies_of_wellFormed admitted formed, entry_of_bare file bare direct room admitted statements,
    fun k s stands => holds_of_bare file bare direct room admitted stands⟩

end WordMachine
