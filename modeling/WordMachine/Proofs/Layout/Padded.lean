import WordMachine.Proofs.Layout.Acceptance
import WordMachine.Proofs.Source.Annotated

/-!
# Lines that put nothing into a program

Silent lines do not move the counter, and whatever is read off the plan of a file is read off the locations, labels
and words of its lines. So a file that is padded with silent lines has the labels, the word locations, the literals
and the words of the file itself, is well-formed if the file is, and is assembled to the same program.
-/
namespace WordMachine

open Source

/-! ## One line -/

section

variable {l l' : Line} {counter : Int}

theorem Source.Line.Agrees.emits (agrees : l.Agrees l') : l'.emits = l.emits := by
  rw [Line.emits, agrees.content, Line.emits]

theorem Source.Line.Agrees.here (agrees : l.Agrees l') : l'.here counter = l.here counter := by
  rw [Line.here, agrees.location, Line.here]

theorem Source.Line.Agrees.next (agrees : l.Agrees l') : l'.next counter = l.next counter := by
  rw [Line.next, agrees.emits, agrees.here, Line.next]

theorem Source.Line.Silent.emits (silent : l.Silent) : l.emits = false := by
  rw [Line.emits, silent.content]
  rfl

theorem Source.Line.Silent.next (silent : l.Silent) : l.next counter = counter := by
  simp [Line.next, Line.here, silent.emits, silent.location]

end

/-! ## What is read off the lines -/

section

variable {lines lines' : List Line} (padded : Padded lines lines')
include padded

theorem filterMap_padded {α : Type} {f : Line → Option α} (agree : ∀ l l', l.Agrees l' → f l' = f l)
    (silent : ∀ l, l.Silent → f l = none) : lines'.filterMap f = lines.filterMap f := by
  induction padded with
  | nil => rfl
  | line agrees _ ih => rw [List.filterMap_cons, List.filterMap_cons, agree _ _ agrees, ih]
  | silent empty _ ih => rw [List.filterMap_cons, silent _ empty, ih]

/-- The counter is the same before a line and before the one that agrees with it. -/
theorem flatMap_planned_padded {α : Type} {f f' : Line × Int → List α}
    (agree : ∀ l l' here, l.Agrees l' → f' (l', here) = f (l, here))
    (silent : ∀ l here, l.Silent → f' (l, here) = []) (counter : Int) :
    (planned counter lines').flatMap f' = (planned counter lines).flatMap f := by
  induction padded generalizing counter with
  | nil => rfl
  | line agrees _ ih =>
    rw [planned, planned, List.flatMap_cons, List.flatMap_cons, agrees.here, agrees.next, ih, agree _ _ _ agrees]
  | silent empty _ ih => rw [planned, List.flatMap_cons, empty.next, ih, silent _ _ empty, List.nil_append]

theorem labelNames_padded : labelNames lines' = labelNames lines :=
  filterMap_padded padded (fun _ _ agrees => agrees.label) fun _ silent => silent.label

theorem statements_padded : statements lines' = statements lines :=
  filterMap_padded padded (fun _ _ agrees => by rw [agrees.content]) fun _ silent => by rw [silent.content]

theorem constantOperands_padded : constantOperands lines' = constantOperands lines :=
  filterMap_padded padded (fun _ _ agrees => by rw [agrees.content]) fun _ silent => by rw [silent.content]; rfl

theorem literalKeys_padded : literalKeys lines' = literalKeys lines := by
  rw [literalKeys, constantOperands_padded padded, literalKeys]

theorem wordLocations_padded (origin : Int) : wordLocations origin lines' = wordLocations origin lines := by
  rw [wordLocations, wordLocations, List.filterMap_eq_flatMap_toList, List.filterMap_eq_flatMap_toList]
  exact flatMap_planned_padded padded (fun _ _ _ agrees => by simp only [agrees.emits])
    (fun _ _ silent => by simp [silent.emits]) origin

theorem admitted_padded (admitted : ∀ line ∈ lines, line.Admitted) : ∀ line ∈ lines', line.Admitted := by
  induction padded with
  | nil => exact admitted
  | line agrees _ ih =>
    intro line member
    rcases List.mem_cons.mp member with rfl | later
    · exact fun c present => admitted _ (by simp) c (agrees.content ▸ present)
    · exact ih (fun other place => admitted other (by simp [place])) line later
  | silent empty _ ih =>
    intro line member
    rcases List.mem_cons.mp member with rfl | later
    · intro c present
      rw [empty.content] at present
      cases present
    · exact ih admitted line later

end

/-! ## The layout -/

namespace Layout

variable {settings : AssemblySettings} {lines lines' : List Line}

/-- The layouts bind the same labels to the same locations, and their literal tables are the same. -/
structure SameTables (l l' : Layout) : Prop where
  labels : l'.labelTable = l.labelTable
  literals : l'.literals = l.literals

/-- Comments and silent lines change neither labels nor literals. -/
theorem sameTables_padded (settings : AssemblySettings) (padded : Padded lines lines') :
    (ofPlan settings lines).SameTables (ofPlan settings lines') := by
  constructor
  · simp only [labelTable, ofPlan, List.map_flatMap, List.map_map]
    exact flatMap_planned_padded padded (fun _ _ _ agrees => by simp [agrees.label])
      (fun _ _ silent => by simp [silent.label]) settings.origin
  · simp only [ofPlan, constantOperands_padded padded]

end Layout

namespace Encoding

variable {settings : AssemblySettings} {l l' : Layout} (same : l.SameTables l')
include same

theorem resolve_of_sameTables (operand : Option Operand) : resolve settings l' operand = resolve settings l operand := by
  have names : l'.labels.map (·.name) = l.labels.map (·.name) := by
    simpa [Layout.labelTable, Function.comp_def] using congrArg (List.map Prod.fst) same.labels
  rcases operand with _ | ⟨⟨name | n, index, indirect, column⟩⟩ | ⟨c, column⟩
  · rfl
  · have location := Layout.lookup_labelTable l name
    have location' := Layout.lookup_labelTable l' name
    rw [same.labels, location] at location'
    unfold resolve
    dsimp only
    rw [names]
    cases bound : l.binding? name <;> cases bound' : l'.binding? name <;> simp_all
  · rfl
  · unfold resolve Layout.slotOf?
    rw [same.literals]

theorem statement_of_sameTables (s : Statement) : statement settings l' s = statement settings l s := by
  rw [statement, resolve_of_sameTables same, statement]

/-- Lines that agree add one and the same word at one and the same location. -/
theorem wordsOf_of_agrees {line line' : Line} (agrees : line.Agrees line') (here : Int) :
    (wordsOf settings l' line' here).map (fun w => (w.location, w.word)) =
      (wordsOf settings l line here).map fun w => (w.location, w.word) := by
  unfold wordsOf
  rw [agrees.content]
  cases line.content with
  | none => rfl
  | some c =>
    cases c with
    | constant c => rfl
    | statement s =>
      simp only [content, statement_of_sameTables same]
      cases statement settings l s <;> rfl

end Encoding

theorem wordsOf_silent (settings : AssemblySettings) (l : Layout) {line : Line} (silent : line.Silent) (here : Int) :
    Encoding.wordsOf settings l line here = [] := by
  rw [Encoding.wordsOf, silent.content]

/-! ## Both passes -/

variable {settings : AssemblySettings} {lines lines' : List Line}

/-- Comments and silent lines keep a program well-formed. -/
theorem wellFormed_padded (padded : Padded lines lines') (admitted : ∀ line ∈ lines, line.Admitted)
    (formed : WellFormed settings lines) : WellFormed settings lines' := by
  have distinct : (labelNames lines').Nodup := labelNames_padded padded ▸ formed.labels_distinct
  refine ⟨distinct, ?_, ?_, fun s member => ?_, ?_⟩
  · rw [wordLocations_padded padded]
    exact formed.locations_distinct
  · rw [wordLocations_padded padded]
    exact formed.locations_inside
  · -- a statement is encodable if the second pass makes a word of it, and it makes the same word in both files
    have mine : s ∈ statements lines := statements_padded padded ▸ member
    obtain ⟨w, made⟩ := (Encoding.exists_statement_iff formed.labels_distinct admitted mine).mpr
      (formed.statements s mine)
    exact (Encoding.exists_statement_iff distinct (admitted_padded padded admitted) member).mp
      ⟨w, (Encoding.statement_of_sameTables (Layout.sameTables_padded settings padded) s).trans made⟩
  · rw [wordLocations_padded padded, literalKeys_padded padded]
    exact formed.below_literals

end WordMachine
