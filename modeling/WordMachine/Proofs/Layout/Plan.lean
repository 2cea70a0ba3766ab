import WordMachine.Layout
import WordMachine.Proofs.Source.Constant

/-!
# The plan of a program

Where the rules of the dialect put the lines of a program, stated without the passes of the assembler: an
explicit location moves the counter, a line with a word takes the counter's location and advances it. The
labels, the locations of the words and the keys of the literal table are read off this plan.
-/
namespace WordMachine

open Source

/-! ## Lines and their locations -/

/-- The location of a line that comes when the counter has some value. -/
def Source.Line.here (line : Line) (counter : Int) : Int :=
  line.location.elim counter Int.ofNat

def Source.Line.next (counter : Int) (line : Line) : Int :=
  if line.emits then line.here counter + 1 else line.here counter

def counterAfter (counter : Int) (lines : List Line) : Int :=
  lines.foldl Line.next counter

/-- The lines, each with its location. -/
def planned : Int → List Line → List (Line × Int)
  | _, [] => []
  | counter, line :: rest => (line, line.here counter) :: planned (line.next counter) rest

def wordLocations (origin : Int) (lines : List Line) : List Int :=
  (planned origin lines).filterMap fun (line, here) => if line.emits then some here else none

def labelNames (lines : List Line) : List String :=
  lines.filterMap (·.label)

/-- Later lines go on from the counter that the earlier ones leave. -/
theorem planned_append (counter : Int) (before after : List Line) :
    planned counter (before ++ after) =
      planned counter before ++ planned (counterAfter counter before) after := by
  induction before generalizing counter with
  | nil => rfl
  | cons line rest ih => simp only [List.cons_append, planned, ih, counterAfter, List.foldl_cons]

theorem counterAfter_concat (counter : Int) (lines : List Line) (line : Line) :
    counterAfter counter (lines ++ [line]) = line.next (counterAfter counter lines) := by
  simp [counterAfter, List.foldl_append]

theorem planned_concat (counter : Int) (lines : List Line) (line : Line) :
    planned counter (lines ++ [line]) =
      planned counter lines ++ [(line, line.here (counterAfter counter lines))] := by
  rw [planned_append]
  rfl

@[simp] theorem map_fst_planned (counter : Int) (lines : List Line) :
    (planned counter lines).map Prod.fst = lines := by
  induction lines generalizing counter with
  | nil => rfl
  | cons line rest ih => simp only [planned, List.map_cons, ih]

theorem mem_of_mem_planned {counter here : Int} {lines : List Line} {line : Line}
    (member : (line, here) ∈ planned counter lines) : line ∈ lines := by
  rw [← map_fst_planned counter lines]
  exact List.mem_map_of_mem member

theorem exists_planned_of_mem (counter : Int) {lines : List Line} {line : Line} (member : line ∈ lines) :
    ∃ here, (line, here) ∈ planned counter lines := by
  rw [← map_fst_planned counter lines] at member
  obtain ⟨⟨same, here⟩, found, rfl⟩ := List.mem_map.mp member
  exact ⟨here, found⟩

theorem wordLocations_concat (origin : Int) (lines : List Line) (line : Line) :
    wordLocations origin (lines ++ [line]) = wordLocations origin lines ++
      if line.emits then [line.here (counterAfter origin lines)] else [] := by
  simp only [wordLocations, planned_concat, List.filterMap_append, List.filterMap_cons,
    List.filterMap_nil]
  split <;> simp_all

/-- The locations of the words are those of the planned lines that have one. -/
theorem mem_wordLocations {origin here : Int} {lines : List Line} :
    here ∈ wordLocations origin lines ↔ ∃ line, (line, here) ∈ planned origin lines ∧ line.emits := by
  simp only [wordLocations, List.mem_filterMap, Prod.exists, Option.ite_none_right_eq_some,
    Option.some.injEq]
  constructor
  · rintro ⟨line, place, member, emits, rfl⟩
    exact ⟨line, member, emits⟩
  · rintro ⟨line, member, emits⟩
    exact ⟨line, here, member, emits, rfl⟩

theorem labelNames_concat (lines : List Line) (line : Line) :
    labelNames (lines ++ [line]) = labelNames lines ++ line.label.toList := by
  simp only [labelNames, List.filterMap_append]
  cases h : line.label <;> simp [h]

/-! ## Statements and constants -/

def Source.Statement.index? (s : Statement) : Option Nat :=
  match s.operand with
  | some (.address a) => a.index
  | _ => none

def Source.Statement.symbol? (s : Statement) : Option String :=
  match s.operand with
  | some (.address ⟨.label name, _, _, _⟩) => some name
  | _ => none

def Source.Statement.indirect (s : Statement) : Bool :=
  match s.operand with
  | some (.address a) => a.indirect
  | _ => false

def Source.Content.literal? : Content → Option Constant
  | .statement ⟨_, _, some (.constant c _), _⟩ => some c
  | _ => none

def statements (lines : List Line) : List Statement :=
  lines.filterMap fun line =>
    match line.content with
    | some (.statement s) => some s
    | _ => none

def constantOperands (lines : List Line) : List Constant :=
  lines.filterMap fun line => line.content.bind Content.literal?

/-- The keys of the constant operands, each once, in the order in which they first come. -/
def literalKeys (lines : List Line) : List ConstantKey :=
  ((constantOperands lines).map Constant.key).eraseDups

theorem mem_statements {lines : List Line} {s : Statement} :
    s ∈ statements lines ↔ ∃ line ∈ lines, line.content = some (.statement s) := by
  simp only [statements, List.mem_filterMap]
  constructor
  · rintro ⟨line, member, found⟩
    split at found
    next t content =>
      cases found
      exact ⟨line, member, content⟩
    · cases found
  · rintro ⟨line, member, content⟩
    exact ⟨line, member, by rw [content]⟩

theorem mem_constantOperands {lines : List Line} {s : Statement} {c : Constant} {column : Nat}
    (member : s ∈ statements lines) (operand : s.operand = some (.constant c column)) :
    c ∈ constantOperands lines := by
  obtain ⟨line, place, content⟩ := mem_statements.mp member
  obtain ⟨mnemonic, accumulator, written, routine⟩ := s
  subst operand
  exact List.mem_filterMap.mpr ⟨line, place, by rw [content]; rfl⟩

theorem exists_statement_of_mem_constantOperands {lines : List Line} {c : Constant}
    (member : c ∈ constantOperands lines) :
    ∃ s ∈ statements lines, ∃ column, s.operand = some (.constant c column) := by
  obtain ⟨line, place, literal⟩ := List.mem_filterMap.mp member
  obtain ⟨content, present, literal⟩ := Option.bind_eq_some_iff.mp literal
  unfold Content.literal? at literal
  split at literal
  next mnemonic accumulator constant column routine =>
    cases literal
    exact ⟨_, mem_statements.mpr ⟨line, place, present⟩, column, rfl⟩
  · cases literal

/-! ## Lists -/

/-- What every step of a fold keeps is kept by the fold. -/
theorem prefix_foldl {σ α β : Type} (kept : σ → List β) {step : σ → α → σ}
    (keeps : ∀ s a, kept s <+: kept (step s a)) (s : σ) (xs : List α) :
    kept s <+: kept (xs.foldl step s) := by
  induction xs generalizing s with
  | nil => exact List.prefix_rfl
  | cons x rest ih => exact (keeps s x).trans (ih (step s x))

theorem eraseDups_concat {α : Type} [BEq α] [LawfulBEq α] (xs : List α) (x : α) :
    (xs ++ [x]).eraseDups = if x ∈ xs then xs.eraseDups else xs.eraseDups ++ [x] := by
  rw [List.eraseDups_append]
  by_cases member : x ∈ xs
  · simp [List.removeAll, member]
  · simp [List.removeAll, member, List.eraseDups_cons]

theorem nodup_eraseDups {α : Type} [BEq α] [LawfulBEq α] (xs : List α) : xs.eraseDups.Nodup := by
  induction xs using List.reverseRecOn with
  | nil => simp
  | append_singleton xs x ih =>
    rw [eraseDups_concat]
    split
    · exact ih
    next fresh =>
      refine List.nodup_append.mpr ⟨ih, by simp, ?_⟩
      rintro y hy z hz rfl
      rw [List.mem_singleton.mp hz, List.mem_eraseDups] at hy
      exact fresh hy

end WordMachine
