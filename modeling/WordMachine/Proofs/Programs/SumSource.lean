import WordMachine.Proofs.Assembly.Straight
import WordMachine.Proofs.Programs.SumRun
import WordMachine.Proofs.Source.WrittenLine
import WordMachine.Proofs.Text.Shown

/-!
# A program that sums, from its text to its output

The source takes a value, adds other values to it, prints the sum and stops. Its lines are read as statements, the
statements are assembled, and the memory that is loaded with the assembly has a program that sums. Equal values
share a literal, so there is room for a program as long as its values and the different ones among them come to
2038 together.
-/
namespace WordMachine

open Source

def sumTexts (first : Int) (rest : List Int) : List String :=
  ("TAKE 1, " ++ (Constant.integer first).written) ::
    rest.map (fun n => "ADD 1, " ++ (Constant.integer n).written) ++ ["PRINT 1,", "STOP"]

def accumulate (m : Mnemonic) (n : Int) : Statement :=
  ⟨m, some 1, some (.constant (.integer n) 0), none⟩

def call (accumulator : Option Nat) (r : Routine) : Statement :=
  ⟨.extra, accumulator, some (.address ⟨.location r.number, none, false, 0⟩), some r⟩

def sumStatements (first : Int) (rest : List Int) : List Statement :=
  accumulate .take first :: rest.map (accumulate .add) ++ [call (some 1) .print, call none .stop]

/-! ## Reading -/

theorem reads_accumulate {m : Mnemonic} (accepts : m.acceptsConstant = true) {n : Int} (fits : Word.fits n)
    (file : String) : ReadAs file (Bare (accumulate m n)) (m.name ++ " 1, " ++ (Constant.integer n).written) := by
  intro number
  let line : Line := ⟨0, "", none, none, some (.statement (accumulate m n)), none, ""⟩
  have plain : line.Plain := by
    constructor
    case label => nofun
    case content =>
      rintro _ ⟨⟩
      refine ⟨rfl, ?_⟩
      rintro _ ⟨⟩
      exact ⟨accepts, fits⟩
    case comment => nofun
    case located => nofun
  have short : Text.isWritable n = true :=
    Text.isWritable_of_natAbs_lt (Nat.lt_of_le_of_lt (Word.natAbs_le_of_fits fits) (by decide))
  have writable : ∀ k ∈ line.numbers, Text.isWritable k = true := by
    have one : Text.isWritable 1 = true := Text.isWritable_of_natAbs_lt (by decide)
    have numbers : line.numbers = [1, n] := rfl
    simp [numbers, one, short]
  obtain ⟨column, parsed⟩ := parse_texts plain writable file number
  have written : " ".intercalate line.texts = m.name ++ " 1, " ++ (Constant.integer n).written := by
    have texts : line.texts = [" ".intercalate [m.name, "1,", (Constant.integer n).written]] := rfl
    rw [texts]
    simp [← String.toList_inj]
  rw [written] at parsed
  exact ⟨_, parsed, rfl, rfl, column, rfl⟩

theorem reads_print (file : String) : ReadAs file (Bare (call (some 1) .print)) "PRINT 1," := by
  have read : Token.ofLine symbolicRules "PRINT 1," = .ok [⟨.identifier "PRINT", "PRINT", 1, false⟩,
      ⟨.number 1, "1", 7, true⟩, ⟨.comma, ",", 8, false⟩, ⟨.endOfLine, "", 9, false⟩] := by
    decide +kernel
  exact fun number => ⟨_, Line.parse_of_tokens (by decide) read file number, rfl, rfl, 0, rfl⟩

theorem reads_stop (file : String) : ReadAs file (Bare (call none .stop)) "STOP" := by
  have read : Token.ofLine symbolicRules "STOP" = .ok [⟨.identifier "STOP", "STOP", 1, false⟩,
      ⟨.endOfLine, "", 5, false⟩] := by
    decide +kernel
  exact fun number => ⟨_, Line.parse_of_tokens (by decide) read file number, rfl, rfl, 0, rfl⟩

/-- The lines of the program are read as its statements. -/
theorem reads_sum {first : Int} {rest : List Int} (fits : ∀ n ∈ first :: rest, Word.fits n) (file : String) :
    List.Forall₂ (fun s text => ReadAs file (Bare s) text) (sumStatements first rest) (sumTexts first rest) := by
  refine .cons (reads_accumulate rfl (fits first (by simp)) file) (List.rel_append ?_ ?_)
  · rw [List.forall₂_map_left_iff, List.forall₂_map_right_iff, List.forall₂_same]
    exact fun n member => reads_accumulate rfl (fits n (by simp [member])) file
  · exact .cons (reads_print file) (.cons (reads_stop file) .nil)

/-! ## Room -/

theorem direct_accumulate (m : Mnemonic) (n : Int) : Direct (accumulate m n) :=
  ⟨rfl, show 1 ≤ 7 by decide, nofun, nofun⟩

/-- Every statement fits an instruction. -/
theorem direct_sumStatements (first : Int) (rest : List Int) : ∀ s ∈ sumStatements first rest, Direct s := by
  intro s member
  simp only [sumStatements, List.cons_append, List.mem_cons, List.mem_append, List.mem_map, List.not_mem_nil,
    or_false] at member
  rcases member with rfl | ⟨n, -, rfl⟩ | rfl | rfl
  · exact direct_accumulate _ _
  · exact direct_accumulate _ _
  · exact ⟨rfl, by decide, nofun, by rintro _ _ _ _ ⟨⟩; decide⟩
  · exact ⟨rfl, by decide, nofun, by rintro _ _ _ _ ⟨⟩; decide⟩

theorem length_sumStatements (first : Int) (rest : List Int) :
    (sumStatements first rest).length = (first :: rest).length + 2 := by
  simp [sumStatements]

theorem getElem?_sumStatements {first : Int} {rest : List Int} {k : Nat} (low : k < (first :: rest).length) :
    (sumStatements first rest)[k]? =
      some (accumulate (if k = 0 then .take else .add) (first :: rest)[k]) := by
  cases k with
  | zero => rfl
  | succ k =>
    have within : k < rest.length := Nat.lt_of_succ_lt_succ low
    simp [sumStatements, List.getElem?_append_left, within]

/-- There is a literal for each value, once. -/
theorem length_literalsOf (first : Int) (rest : List Int) :
    (literalsOf (sumStatements first rest)).length = (first :: rest).toFinset.card := by
  have keys : literalsOf (sumStatements first rest) =
      ((first :: rest).map fun n => (Constant.integer n).key).eraseDups := by
    simp [literalsOf, sumStatements, accumulate, call, Content.literal?, List.filterMap_append, Function.comp_def]
  have injective : Function.Injective fun n : Int => (Constant.integer n).key := fun _ _ => ConstantKey.integer.inj
  rw [keys, ← List.toFinset_card_of_nodup (nodup_eraseDups _), ← Finset.card_image_of_injective _ injective]
  congr 1
  ext key
  simp

/-! ## Memory -/

section

variable {a : Assembly} {memory : Memory} (occupies : a.Occupies 2048) (size : (memory.size : Int) = 2048)
  (reads : ∀ location, 0 ≤ location ∧ location < 2048 →
    memory.read location = .ok ((a.word? location).getD Word.zero))
include size reads

theorem get_of_word? {location : Nat} {w : Word} (inside : location < 2048) (found : a.word? location = some w) :
    memory.get location = w := by
  have read := reads location (by omega)
  rw [Memory.read_eq (by omega), found] at read
  exact Except.ok.inj read

theorem has_call {location : Nat} (inside : location < 2048) {accumulator : Option Nat} {r : Routine} {column : Nat}
    {w : Word} {n : Fin 8} (register : accumulator.getD 1 = n.val) (found : a.word? location = some w)
    (holds : a.Holds w ((Content.statement (call accumulator r)).at column)) :
    memory.Has location .extra n r.number := by
  obtain ⟨i, address, decoded, meaning, gives, -⟩ := holds
  refine ⟨by omega, i, by rw [get_of_word? size reads inside found]; exact decoded, ?_⟩
  cases gives with
  | number => exact plain_of_says meaning register rfl rfl

include occupies

theorem has_accumulate {location : Nat} (inside : location < 2048) {m : Mnemonic} {n : Int} {column : Nat} {w : Word}
    (found : a.word? location = some w)
    (holds : a.Holds w ((Content.statement (accumulate m n)).at column)) :
    ∃ slot, 8 ≤ slot ∧ slot < memory.size ∧ memory.Has location m 1 slot ∧ (memory.get slot).HoldsInteger n := by
  obtain ⟨i, address, decoded, meaning, gives, -⟩ := holds
  cases gives with
  | literal _ held allocated there =>
    have low := occupies.clear (by decide) _ allocated
    have high : address ≤ 2047 := by
      obtain ⟨j, short, same⟩ := List.getElem_of_mem allocated
      have place := occupies.descending j short
      rw [same] at place
      dsimp only at place
      omega
    obtain ⟨slot, rfl⟩ := Int.eq_ofNat_of_zero_le (Int.le_trans (by decide) low)
    refine ⟨slot, Int.ofNat_le.mp low, by omega, ⟨by omega, i, ?_, plain_of_says meaning rfl rfl rfl⟩, ?_⟩
    · rw [get_of_word? size reads inside found]
      exact decoded
    · rw [get_of_word? size reads (by omega) there]
      exact Word.holdsInteger_of_ofInteger held

end

/-- A machine that was loaded with the program is about to sum. -/
theorem summed_of_load {a : Assembly} {first : Int} {rest : List Int} (occupies : a.Occupies 2048)
    (entry : a.entry = some 8) (room : (first :: rest).length ≤ 2038)
    (holds : ∀ (k : Nat) s, (sumStatements first rest)[k]? = some s → ∃ column w, a.word? (8 + k) = some w ∧
      a.Holds w ((Content.statement s).at column))
    (supply : Supply) (traced : Bool) :
    ∃ m, Machine.load a fullMemorySize supply traced = .ok m ∧ m.Summed (first :: rest) 0 := by
  obtain ⟨memory, loaded, size, reads⟩ := occupies.loads fullMemorySize (by decide) (by decide)
  have size : (memory.size : Int) = 2048 := size
  refine ⟨_, bind_eq_ok_iff.mpr ⟨memory, loaded, rfl⟩, ?_⟩
  constructor
  case program =>
    constructor
    case value =>
      intro k low
      obtain ⟨column, w, found, said⟩ := holds k _ (getElem?_sumStatements low)
      exact has_accumulate occupies size reads (by omega) (by exact_mod_cast found) said
    case print =>
      obtain ⟨column, w, found, said⟩ := holds (first :: rest).length (call (some 1) .print) (by simp [sumStatements])
      exact has_call size reads (by omega) rfl (by exact_mod_cast found) said
    case stop =>
      obtain ⟨column, w, found, said⟩ :=
        holds ((first :: rest).length + 1) (call none .stop) (by simp [sumStatements])
      have place : ((9 + (first :: rest).length : Nat) : Int) = 8 + (((first :: rest).length + 1 : Nat) : Int) := by
        omega
      exact has_call size reads (by omega) rfl (place ▸ found) said
  case live => simp [entry, Status.isTerminal]
  case counter => simp [entry]
  case steps => rfl
  case silent => rfl
  case sum => exact fun never => absurd never (by decide)

/-! ## The whole way -/

theorem unbroken_integer (n : Int) : Text.Unbroken (Constant.integer n).written.toList := by
  have digits : Text.Unbroken n.repr.toList := Text.unbroken_toString_int n
  have plus : Text.endsLine '+' = false := by decide
  have same : ∀ s : String, toString s = s := fun _ => rfl
  unfold Constant.written
  dsimp only
  split <;> simp [same, plus, digits]

/-- The lines of the program are not empty, and hold no character that ends a line. -/
theorem unbroken_sumTexts (first : Int) (rest : List Int) :
    ∀ t ∈ sumTexts first rest, Text.Unbroken t.toList ∧ t ≠ "" := by
  have line : ∀ (s : String) (n : Int), (∀ c ∈ s.toList, Text.endsLine c = false) → s ≠ "" →
      Text.Unbroken (s ++ (Constant.integer n).written).toList ∧ s ++ (Constant.integer n).written ≠ "" := by
    intro s n unbroken shown
    rw [String.toList_append, Text.unbroken_append_iff]
    exact ⟨⟨unbroken, unbroken_integer n⟩, by simp [shown]⟩
  have fixed : ∀ t ∈ ["PRINT 1,", "STOP"], (∀ c ∈ t.toList, Text.endsLine c = false) ∧ t ≠ "" := by
    simp [Text.endsLine]
  intro t member
  simp only [sumTexts, List.cons_append, List.mem_cons, List.mem_append, List.mem_map] at member
  rcases member with rfl | ⟨n, -, rfl⟩ | last
  · exact line _ _ (by simp [Text.endsLine]) (by decide)
  · exact line _ _ (by simp [Text.endsLine]) (by decide)
  · exact fixed t (by simpa using last)

/-- A program that sums is assembled and loaded, and its runs sum up the values. -/
theorem sum_program_runs {first : Int} {rest : List Int} (fits : ∀ n ∈ first :: rest, Word.fits n)
    (room : (first :: rest).length + (first :: rest).toFinset.card ≤ 2038) :
    Text.lines ("\n".intercalate (sumTexts first rest)) = sumTexts first rest ∧
    ∀ source file, Text.lines source = sumTexts first rest →
      ∃ a, assembleSource {} source file = ⟨.ok a, []⟩ ∧
        ∀ supply traced, ∃ m, Machine.load a fullMemorySize supply traced = .ok m ∧ m.SumsUp (first :: rest) := by
  have seen := unbroken_sumTexts first rest
  refine ⟨Text.lines_separated (fun t member => (seen t member).1) (fun t member => (seen t member).2),
    fun source file written => ?_⟩
  have length := length_sumStatements first rest
  have literals := length_literalsOf first rest
  obtain ⟨a, assembled, occupies, entry, holds⟩ := assembleSource_of_bare (reads_sum fits file)
    (direct_sumStatements first rest) (by omega) (by simp [sumStatements]) written
  refine ⟨a, assembled, fun supply traced => ?_⟩
  obtain ⟨m, loaded, summed⟩ := summed_of_load occupies entry (by omega) holds supply traced
  exact ⟨m, loaded, summed.sumsUp (by simp)⟩

/-- Three values of which the first and the last share a literal, and two values whose sum is too great. -/
theorem sharedValue_sum_runs :
    (∀ n ∈ [5, -3, 5], Word.fits n) ∧ (∀ n ∈ [8388607, 1], Word.fits n) ∧
    "\n".intercalate (sumTexts 5 [-3, 5]) = "TAKE 1, +5\nADD 1, -3\nADD 1, +5\nPRINT 1,\nSTOP" ∧
    (∃ a m done, assembleSource {} "TAKE 1, +5\nADD 1, -3\nADD 1, +5\nPRINT 1,\nSTOP" "sum" = ⟨.ok a, []⟩ ∧
      Machine.load a fullMemorySize {} false = .ok m ∧ m.RunsTo 5 (done, none) ∧
      done.status = .halted (some 12) ∧ done.output = "7") ∧
    ∃ a m done f, assembleSource {} ("\n".intercalate (sumTexts 8388607 [1])) "sum" = ⟨.ok a, []⟩ ∧
      Machine.load a fullMemorySize {} false = .ok m ∧ m.RunsTo 2 (done, some (.fault f)) ∧
      f.cause.kind = .registerOutOfRange ∧ f.location = 9 ∧ done.output = "" := by
  have small : ∀ n ∈ [5, -3, 5], Word.fits n := by decide
  have great : ∀ n ∈ [8388607, 1], Word.fits n := by decide
  have text : "\n".intercalate (sumTexts 5 [-3, 5]) = "TAKE 1, +5\nADD 1, -3\nADD 1, +5\nPRINT 1,\nSTOP" := by
    decide +kernel
  refine ⟨small, great, text, ?_, ?_⟩
  · obtain ⟨separated, whole⟩ := sum_program_runs small (by decide)
    rw [text] at separated
    obtain ⟨a, assembled, loads⟩ := whole _ "sum" separated
    obtain ⟨m, loaded, sums⟩ := loads {} false
    obtain ⟨done, runs, status, -, output⟩ := sums.halts (by decide)
    exact ⟨a, m, done, assembled, loaded, runs, status, output⟩
  · obtain ⟨separated, whole⟩ := sum_program_runs great (by decide)
    obtain ⟨a, assembled, loads⟩ := whole _ "sum" separated
    obtain ⟨m, loaded, sums⟩ := loads {} false
    obtain ⟨i, low, high, unfit, -, done, f, runs, -, -, output, kind, location, -⟩ := sums.faults (by decide)
    have second : i = 2 := by
      rcases Nat.lt_or_eq_of_le high with less | same
      · obtain rfl : i = 1 := by simp at less; omega
        exact absurd (by decide) unfit
      · exact same
    subst second
    exact ⟨a, m, done, f, assembled, loaded, runs, kind, location, output⟩

end WordMachine
