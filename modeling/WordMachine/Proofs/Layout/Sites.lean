import WordMachine.Proofs.Layout.Undefined

/-!
# Which lines the passes report

Each problem that the passes gather is about one of the lines: about its first column if its label or its location is
at fault, and about the column of its operand if its word cannot be encoded (`Diagnostic.Concerns`). Both passes go
through the lines and add to the problems only when they come to the line that is at fault. The one diagnostic without
a line is the one that says that the limit is reached.
-/
namespace WordMachine

open Source

/-- The diagnostic is about the line, or about the operand of its statement. An undefined label is the one that the
operand names. -/
inductive Diagnostic.Concerns (line : Line) : Diagnostic → Prop
  | line {cause : Cause} (other : cause.undefinedLabel? = none) :
    Concerns line (.problem cause (some (line.site 1)) (some line.text))
  | operand {cause : Cause} {s : Statement} (present : line.content = some (.statement s))
    (symbol : ∀ name, cause.undefinedLabel? = some name → s.symbol? = some name) :
    Concerns line (.problem cause (some (line.site (Encoding.column s.operand))) (some line.text))

def Collector.Concerning (lines : List Line) (c : Collector) : Prop :=
  ∀ d ∈ c.errors, ∃ line ∈ lines, d.Concerns line

/-- A problem about one of the lines more. -/
theorem Collector.Concerning.add {lines : List Line} {c : Collector} {d : Diagnostic} {line : Line}
    (earlier : c.Concerning lines) (member : line ∈ lines) (concerns : d.Concerns line) :
    (c.add d).Concerning lines := by
  intro other reported
  rcases List.mem_append.mp reported with before | last
  · exact earlier other before
  · rw [List.mem_singleton.mp last]
    exact ⟨line, member, concerns⟩

variable {settings : AssemblySettings} {lines : List Line} {line : Line} {l : Layout}

/-! ## The first pass -/

namespace Layout

theorem concerning_step (earlier : l.collector.Concerning lines) (member : line ∈ lines) :
    (step settings l line).collector.Concerning lines := by
  cases room : l.collector.isFull with
  | true =>
    rw [step_of_full room]
    exact earlier
  | false =>
    have outcome := step_outcome settings line room
    generalize step settings l line = next at outcome
    cases outcome with
    | taken => exact earlier
    | clash => exact earlier.add member (.line rfl)
    | misplaced _ _ problem => exact earlier.add member (.line (undefinedLabel?_of_misplaced problem))

theorem concerning_overlapStep {first : Int} {entry : Line × Option Int} (earlier : l.collector.Concerning lines)
    (member : entry.1 ∈ lines) : (overlapStep first l entry).collector.Concerning lines := by
  rcases overlapStep_cases first l entry with same | ⟨location, same⟩
  · rwa [same]
  · rw [same]
    exact earlier.add member (.line rfl)

theorem concerning_ofLines (settings : AssemblySettings) (lines : List Line) :
    (ofLines settings lines).collector.Concerning lines := by
  have clean : (start settings).collector.Concerning lines := fun d member => by cases member
  have passed : (lines.foldl (step settings) (start settings)).collector.Concerning lines :=
    List.foldlRecOn lines (step settings) (motive := fun l => l.collector.Concerning lines) clean
      fun _ earlier _ member => concerning_step earlier member
  exact List.foldlRecOn (lines.zip (lines.foldl (step settings) (start settings)).places) (overlapStep _)
    (motive := fun l => l.collector.Concerning lines) passed
    fun _ earlier _ member => concerning_overlapStep earlier (List.of_mem_zip member).1

end Layout

/-! ## The second pass -/

namespace Encoding

variable {p : Progress}

/-- A statement is refused for an undefined label only if it names that label. -/
theorem symbol?_of_refused {s : Statement} {cause : Cause} (refused : statement settings l s = .error cause)
    {name : String} (undefined : cause.undefinedLabel? = some name) : s.symbol? = some name := by
  cases refusedFor_of_statement refused with
  | undefined similar symbol =>
    cases undefined
    exact symbol
  | outside | unfit =>
    rw [undefinedLabel?_cause] at undefined
    cases undefined

/-- What is wrong with a word concerns its line. -/
theorem concerns_of_problem? {entry : Line × Option Int} {d : Diagnostic}
    (found : problem? settings l entry = some d) : d.Concerns entry.1 := by
  unfold problem? wordAt? at found
  split at found
  next here refused =>
    cases found
    split at refused
    next c _ present =>
      obtain ⟨-, refused⟩ := Prod.mk.inj (Option.some.inj refused)
      cases c with
      | constant => cases refused
      | statement s =>
        obtain ⟨cause, stopped, rfl⟩ := mapError_eq_error_iff.mp refused
        exact .operand present fun _ undefined => symbol?_of_refused stopped undefined
    · cases refused
  · cases found

theorem concerning_step {entry : Line × Option Int} (earlier : p.collector.Concerning lines)
    (member : entry.1 ∈ lines) : (step settings l p entry).collector.Concerning lines := by
  cases room : p.collector.isFull with
  | true =>
    rw [show step settings l p entry = p by simp [step, room]]
    exact earlier
  | false =>
    rw [collector_step room]
    cases found : problem? settings l entry with
    | none => simpa [Collector.Concerning] using earlier
    | some d => exact earlier.add member (concerns_of_problem? found)

end Encoding

/-! ## Both passes -/

/-- Every problem of a file concerns one of its lines. -/
theorem concerning_generate (settings : AssemblySettings) (lines : List Line) (file : String) :
    (generate settings lines file).collector.Concerning lines :=
  List.foldlRecOn (lines.zip (Layout.ofLines settings lines).places)
    (Encoding.step settings (Layout.ofLines settings lines)) (motive := fun p => p.collector.Concerning lines)
    (Layout.concerning_ofLines settings lines)
    fun _ earlier _ member => Encoding.concerning_step earlier (List.of_mem_zip member).1

/-- What a file fails with concerns its lines, but for the diagnostic that says that the limit is reached. -/
theorem concerns_of_generate_error {file : String} {errors : List Diagnostic}
    (failed : (generate settings lines file).outcome = .error (.failed errors)) :
    ∀ d ∈ errors, d = .problem (.limitReached settings.maxErrors) none none ∨ ∃ line ∈ lines, d.Concerns line := by
  have concerning := concerning_generate settings lines file
  have limit := limit_generate settings lines file
  intro d member
  rcases Collector.errors_of_verdict_failed failed with rfl | rfl
  · rcases List.mem_append.mp member with gathered | last
    · exact Or.inr (concerning d gathered)
    · rw [List.mem_singleton.mp last]
      exact Or.inl (congrArg (fun limit => Diagnostic.problem (.limitReached limit) none none) limit)
  · exact Or.inr (concerning d member)

end WordMachine
