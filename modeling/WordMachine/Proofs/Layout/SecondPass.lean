import WordMachine.Proofs.Layout.Tables

/-!
# The second pass

A statement has a word exactly when its registers and the location of its operand fit an instruction, and
that word decodes to what is written. The pass over all lines either leaves a problem or the words and the
listing lines of the plan.
-/
namespace WordMachine

open Source

/-- A statement that a word can hold: its label is defined, its registers exist, and its operand names a
location of the memory that an instruction reaches. -/
structure Encodable (settings : AssemblySettings) (lines : List Line) (s : Statement) : Prop where
  label : ∀ name, s.symbol? = some name → name ∈ labelNames lines
  accumulator : s.effectiveAccumulator ≤ 7
  index : ∀ n, s.index? = some n → 1 ≤ n ∧ n ≤ 7
  address : ∀ address, Names settings lines s.operand address →
    0 ≤ address ∧ address ≤ min settings.memorySize 2048 - 1

/-- An instruction with the fields of a statement whose operand names `address`. -/
structure Says (s : Statement) (address : Int) (i : Instruction) : Prop where
  mnemonic : i.mnemonic = s.mnemonic
  accumulator : i.accumulator.val = s.effectiveAccumulator
  index : i.indexRegister?.map Fin.val = s.index?
  indirect : i.indirect = s.indirect
  address : (i.address : Int) = address

namespace Encoding

variable {settings : AssemblySettings} {lines : List Line} {s : Statement} {address : Int}

/-! ## One statement -/

theorem draft_eq : draft s address =
    { mnemonic := s.mnemonic, accumulator := s.effectiveAccumulator, offset := (splitAddress address).2
      page := (splitAddress address).1, index := s.index?.map Int.ofNat, indirect := s.indirect } := by
  unfold draft Statement.index? Statement.indirect
  rcases s.operand with _ | a | c <;> rfl

/-- A draft fits if its registers exist and its address is on one of the two pages. -/
theorem draft_fits_iff : (draft s address).Fits ↔ s.effectiveAccumulator ≤ 7 ∧
    (∀ n, s.index? = some n → 1 ≤ n ∧ n ≤ 7) ∧ 0 ≤ address ∧ address ≤ 2047 := by
  obtain ⟨whole, low, high⟩ := splitAddress_spec address
  have size : ((pageSize : Nat) : Int) = 1024 := rfl
  rw [size] at whole
  rw [draft_eq]
  constructor
  · rintro ⟨⟨-, accumulator⟩, index, page, offset⟩
    dsimp only at accumulator index page
    refine ⟨by omega, fun n register => ?_, by omega, by omega⟩
    have bounds := index n (by rw [register]; rfl)
    omega
  · rintro ⟨accumulator, index, below, above⟩
    refine ⟨⟨by dsimp only; omega, by dsimp only; omega⟩, fun n register => ?_,
      ⟨by dsimp only; omega, by dsimp only; omega⟩, low, high⟩
    obtain ⟨k, found, rfl⟩ := Option.map_eq_some_iff.mp register
    have bounds := index k found
    simp only [Int.ofNat_eq_natCast]
    omega

/-- The instruction of a draft has the fields of the statement. -/
theorem says_of_check {i : Instruction} (checked : (draft s address).check = .ok i) : Says s address i := by
  obtain ⟨made, same, keeps⟩ := InstructionDraft.check_of_fits (InstructionDraft.fits_of_check checked)
  rw [checked] at same
  cases same
  rw [draft_eq] at keeps
  refine ⟨keeps.mnemonic, Int.ofNat.inj keeps.accumulator, ?_, keeps.indirect, ?_⟩
  · have index := keeps.index
    dsimp only at index
    cases register : i.indexRegister? <;> cases written : s.index? <;>
      simp only [register, written, Option.map_none, Option.map_some, reduceCtorEq, Option.some.injEq]
        at index ⊢
    exact Int.ofNat.inj index
  · have page := keeps.page
    have offset := keeps.offset
    have whole := (splitAddress_spec address).1
    dsimp only at page offset
    rw [Instruction.address, ← whole, ← page, ← offset]
    push_cast
    rfl

/-- The word of a statement is an instruction that says it. -/
theorem statement_eq_ok_iff (distinct : (labelNames lines).Nodup)
    (admitted : ∀ line ∈ lines, line.Admitted) (member : s ∈ statements lines) {w : Word} :
    statement settings (Layout.ofPlan settings lines) s = .ok w ↔
      ∃ address, Names settings lines s.operand address ∧
        (0 ≤ address ∧ address ≤ settings.memorySize - 1) ∧
        ∃ i, (draft s address).check = .ok i ∧ i.encode = w := by
  unfold statement
  simp only [bind_eq_ok_iff, mapError_eq_ok_iff, checkField_eq_ok_iff, Prod.exists]
  constructor
  · rintro ⟨_, column, resolved, address, ⟨rfl, inside⟩, i, checked, made⟩
    exact ⟨address, (Layout.resolve_ofPlan_iff distinct admitted member).mp ⟨column, resolved⟩, inside,
      i, checked, Except.ok.inj made⟩
  · rintro ⟨address, named, inside, i, checked, rfl⟩
    obtain ⟨column, resolved⟩ := (Layout.resolve_ofPlan_iff distinct admitted member).mpr named
    exact ⟨address, column, resolved, address, ⟨rfl, inside⟩, i, checked, rfl⟩

/-- A statement has a word exactly if a word can hold it. -/
theorem exists_statement_iff (distinct : (labelNames lines).Nodup)
    (admitted : ∀ line ∈ lines, line.Admitted) (member : s ∈ statements lines) :
    (∃ w, statement settings (Layout.ofPlan settings lines) s = .ok w) ↔ Encodable settings lines s := by
  simp only [statement_eq_ok_iff distinct admitted member]
  constructor
  · rintro ⟨w, address, named, inside, i, checked, rfl⟩
    obtain ⟨accumulator, index, reach⟩ := draft_fits_iff.mp (InstructionDraft.fits_of_check checked)
    refine ⟨fun name symbol => Layout.symbol_defined_of_names named symbol, accumulator, index,
      fun other also => ?_⟩
    obtain ⟨column, resolved⟩ := (Layout.resolve_ofPlan_iff distinct admitted member).mpr named
    obtain ⟨column, again⟩ := (Layout.resolve_ofPlan_iff distinct admitted member).mpr also
    rw [resolved] at again
    cases again
    omega
  · rintro ⟨label, accumulator, index, reach⟩
    obtain ⟨address, named⟩ := Layout.exists_names settings member label
    have bounds := reach address named
    obtain ⟨i, checked, -⟩ := InstructionDraft.check_of_fits
      (draft_fits_iff.mpr ⟨accumulator, index, bounds.1, by omega⟩)
    exact ⟨i.encode, address, named, by omega, i, checked, rfl⟩

/-! ## One line -/

section Lines

variable {l : Layout} {p : Progress} {line : Line} {here : Int}

/-- Nothing is wrong with the word of the line, if it has one. -/
def HasWord (settings : AssemblySettings) (l : Layout) (line : Line) : Prop :=
  ∀ c, line.content = some c → ∃ w, content settings l line c = .ok w

def wordsOf (settings : AssemblySettings) (l : Layout) (line : Line) (here : Int) : List AssembledWord :=
  match line.content with
  | none => []
  | some c => (content settings l line c).toOption.toList.map (⟨here, ·, line.number⟩)

def listed (settings : AssemblySettings) (l : Layout) (line : Line) (here : Int) : ListingLine where
  number := line.number
  text := line.text
  locations := (wordsOf settings l line here).map (·.location)
  words := (wordsOf settings l line here).map (·.word)
  label := line.label

def placeOf (entry : Line × Int) : Line × Option Int :=
  (entry.1, if entry.1.emits then some entry.2 else none)

/-- A line without problems adds its words and its line of the listing. -/
theorem step_of_hasWord (clean : p.collector.errors = []) (fine : HasWord settings l line) :
    step settings l p (placeOf (line, here)) =
      { p with
        words := p.words ++ wordsOf settings l line here
        listing := p.listing ++ [listed settings l line here] } := by
  have room := Collector.isFull_of_clean clean
  unfold step placeOf
  dsimp only
  rw [if_neg (by simp [room])]
  cases present : line.content with
  | none => simp [wordAt?, wordsOf, listed, Line.emits, present]
  | some c =>
    obtain ⟨w, encoded⟩ := fine c present
    simp [wordAt?, wordsOf, listed, Line.emits, present, encoded, Except.toOption]

theorem hasWord_of_clean (before : p.collector.errors = [])
    (clean : (step settings l p (placeOf (line, here))).collector.errors = []) :
    HasWord settings l line := by
  have room := Collector.isFull_of_clean before
  intro c present
  unfold step placeOf at clean
  dsimp only at clean
  rw [if_neg (by simp [room])] at clean
  cases encoded : content settings l line c with
  | error d => simp [wordAt?, Line.emits, present, encoded, Collector.add] at clean
  | ok w => exact ⟨w, rfl⟩

/-- Problems are kept. -/
theorem errors_step (settings : AssemblySettings) (l : Layout) (p : Progress)
    (entry : Line × Option Int) :
    p.collector.errors <+: (step settings l p entry).collector.errors := by
  unfold step
  dsimp only
  split
  · exact List.prefix_rfl
  · split
    · exact List.prefix_rfl
    · exact List.prefix_append _ _
    · exact List.prefix_rfl

/-! ## All lines -/

/-- The pass over lines without problems. -/
theorem foldl_step_of_hasWord {entries : List (Line × Int)} (clean : p.collector.errors = [])
    (fine : ∀ entry ∈ entries, HasWord settings l entry.1) :
    (entries.map placeOf).foldl (step settings l) p =
      { p with
        words := p.words ++ entries.flatMap fun (line, here) => wordsOf settings l line here
        listing := p.listing ++ entries.map fun (line, here) => listed settings l line here } := by
  induction entries generalizing p with
  | nil => simp
  | cons entry rest ih =>
    rw [List.map_cons, List.foldl_cons, step_of_hasWord clean (fine entry (by simp))]
    refine (ih ?_ fun later member => fine later (by simp [member])).trans ?_
    · exact clean
    · simp

theorem errors_foldl (settings : AssemblySettings) (l : Layout) (p : Progress)
    (entries : List (Line × Option Int)) :
    p.collector.errors <+: (entries.foldl (step settings l) p).collector.errors :=
  prefix_foldl (·.collector.errors) (errors_step settings l) p entries

theorem hasWord_of_foldl_clean {entries : List (Line × Int)} (before : p.collector.errors = [])
    (clean : ((entries.map placeOf).foldl (step settings l) p).collector.errors = []) :
    ∀ entry ∈ entries, HasWord settings l entry.1 := by
  induction entries generalizing p with
  | nil => simp
  | cons entry rest ih =>
    rw [List.map_cons, List.foldl_cons] at clean
    have first : (step settings l p (placeOf entry)).collector.errors = [] :=
      List.prefix_nil.mp (clean ▸ errors_foldl settings l _ _)
    have fine := hasWord_of_clean before first
    intro other member
    rcases List.mem_cons.mp member with rfl | later
    · exact fine
    · exact ih first clean other later

end Lines

end Encoding

end WordMachine
