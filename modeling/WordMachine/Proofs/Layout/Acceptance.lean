import WordMachine.Proofs.Layout.SecondPass

/-!
# Programs without problems

A program that leaves no problem is well-formed, and a well-formed program leaves none, whatever the origin, the
memory size and the limit on problems. What the assembler makes of it is written down from the plan.
-/
namespace WordMachine

open Source

/-- A well-formed program: labels and locations are not used twice, the words stand inside memory and below
the literal table, and every statement fits an instruction. -/
structure WellFormed (settings : AssemblySettings) (lines : List Line) : Prop where
  labels_distinct : (labelNames lines).Nodup
  locations_distinct : (wordLocations settings.origin lines).Nodup
  locations_inside : ∀ here ∈ wordLocations settings.origin lines,
    0 ≤ here ∧ here ≤ settings.memorySize - 1
  statements : ∀ s ∈ statements lines, Encodable settings lines s
  below_literals : ∀ here ∈ wordLocations settings.origin lines,
    here < settings.memorySize - (literalKeys lines).length

namespace Layout

/-! ## Words and the literal table -/

variable {settings : AssemblySettings} {lines : List Line}

def overlapStep (first : Int) (l : Layout) (entry : Line × Option Int) : Layout :=
  match entry.2 with
  | some location =>
    if first ≤ location ∧ !l.collector.isFull then l.report entry.1 (.literalOverlap location first)
    else l
  | none => l

theorem foldl_overlapStep_of_below {first : Int} {l : Layout} {entries : List (Line × Option Int)}
    (below : ∀ entry ∈ entries, ∀ location, entry.2 = some location → location < first) :
    entries.foldl (overlapStep first) l = l := by
  induction entries with
  | nil => rfl
  | cons entry rest ih =>
    have silent : overlapStep first l entry = l := by
      unfold overlapStep
      split
      next location place =>
        have low := below entry (by simp) location place
        rw [if_neg (by omega)]
      · rfl
    rw [List.foldl_cons, silent]
    exact ih fun other member => below other (by simp [member])

theorem errors_foldl_overlapStep (first : Int) (l : Layout) (entries : List (Line × Option Int)) :
    l.collector.errors <+: (entries.foldl (overlapStep first) l).collector.errors := by
  refine prefix_foldl (·.collector.errors) (fun l entry => ?_) l entries
  unfold overlapStep
  split
  · split
    · exact List.prefix_append _ _
    · exact List.prefix_rfl
  · exact List.prefix_rfl

theorem below_of_clean {first : Int} {l : Layout} {entries : List (Line × Option Int)}
    (clean : (entries.foldl (overlapStep first) l).collector.errors = []) :
    ∀ entry ∈ entries, ∀ location, entry.2 = some location → location < first := by
  have before : l.collector.errors = [] :=
    List.prefix_nil.mp (clean ▸ errors_foldl_overlapStep first l entries)
  have room := Collector.isFull_of_clean before
  induction entries with
  | nil => simp
  | cons entry rest ih =>
    rw [List.foldl_cons] at clean
    have low : ∀ location, entry.2 = some location → location < first := by
      intro location place
      by_contra high
      have reported : overlapStep first l entry = l.report entry.1 (.literalOverlap location first) := by
        unfold overlapStep
        rw [place]
        exact if_pos ⟨by omega, by simp [room]⟩
      have kept := errors_foldl_overlapStep first (overlapStep first l entry) rest
      rw [clean, reported] at kept
      simp [report, Collector.add] at kept
    have silent : [entry].foldl (overlapStep first) l = l :=
      foldl_overlapStep_of_below (by simpa using low)
    rw [List.foldl_cons, List.foldl_nil] at silent
    rw [silent] at clean
    intro other member
    rcases List.mem_cons.mp member with rfl | later
    · exact low
    · exact ih clean other later

theorem zip_places : lines.zip (ofPlan settings lines).places =
    (planned settings.origin lines).map Encoding.placeOf := by
  refine (List.zip_of_prod ?_ ?_).symm
  · rw [List.map_map]
    exact map_fst_planned settings.origin lines
  · rw [List.map_map]
    rfl

/-- The words stand below the literal table. -/
theorem ofPlan_below_iff (admitted : ∀ line ∈ lines, line.Admitted) :
    (∀ entry ∈ (planned settings.origin lines).map Encoding.placeOf, ∀ location,
      entry.2 = some location → location < slot settings (ofPlan settings lines).literals.length + 1) ↔
    ∀ here ∈ wordLocations settings.origin lines,
      here < settings.memorySize - (literalKeys lines).length := by
  rw [length_literals admitted]
  simp only [slot, mem_wordLocations]
  constructor
  · rintro below here ⟨line, member, emits⟩
    have low := below _ (List.mem_map_of_mem member) here (by simp [Encoding.placeOf, emits])
    omega
  · intro below entry member location place
    obtain ⟨⟨line, here⟩, planned, rfl⟩ := List.mem_map.mp member
    simp only [Encoding.placeOf, Option.ite_none_right_eq_some, Option.some.injEq] at place
    obtain ⟨emits, rfl⟩ := place
    have low := below here ⟨line, planned, emits⟩
    omega

/-- Where nothing is used twice and the words stay below the literals, the first pass comes to the plan. -/
theorem ofLines_of_placed (admitted : ∀ line ∈ lines, line.Admitted) (placed : Placed settings lines)
    (below : ∀ here ∈ wordLocations settings.origin lines,
      here < settings.memorySize - (literalKeys lines).length) :
    ofLines settings lines = ofPlan settings lines := by
  rw [ofLines, foldl_step_of_placed placed]
  change (lines.zip (ofPlan settings lines).places).foldl
    (overlapStep (slot settings (ofPlan settings lines).literals.length + 1)) _ = _
  rw [zip_places]
  exact foldl_overlapStep_of_below ((ofPlan_below_iff admitted).mpr below)

/-- A first pass without problems has found nothing used twice. -/
theorem placed_of_ofLines_clean (admitted : ∀ line ∈ lines, line.Admitted)
    (clean : (ofLines settings lines).collector.errors = []) :
    Placed settings lines ∧ ∀ here ∈ wordLocations settings.origin lines,
      here < settings.memorySize - (literalKeys lines).length := by
  have placed : Placed settings lines :=
    placed_of_clean (List.prefix_nil.mp (clean ▸ errors_foldl_overlapStep _ _ _))
  refine ⟨placed, (ofPlan_below_iff admitted).mp ?_⟩
  rw [ofLines, foldl_step_of_placed placed] at clean
  rw [← zip_places]
  exact below_of_clean clean

end Layout

/-! ## Both passes -/

variable {settings : AssemblySettings} {lines : List Line} {file : String}

/-- The assembly that the plan of the lines describes. -/
def assembled (settings : AssemblySettings) (lines : List Line) (file : String) : Assembly :=
  let layout := Layout.ofPlan settings lines
  { origin := settings.origin
    words := ((planned settings.origin lines).flatMap fun (line, here) =>
      Encoding.wordsOf settings layout line here).mergeSort fun a b => decide (a.location ≤ b.location)
    literals := layout.literals.mapIdx fun i c => (Layout.slot settings i, c.stored)
    labels := layout.labelTable
    listing := (planned settings.origin lines).map fun (line, here) =>
      Encoding.listed settings layout line here
    file }

/-- The second pass has nothing to say exactly if every statement fits an instruction. -/
theorem hasWord_iff (distinct : (labelNames lines).Nodup) (admitted : ∀ line ∈ lines, line.Admitted) :
    (∀ line ∈ lines, Encoding.HasWord settings (Layout.ofPlan settings lines) line) ↔
      ∀ s ∈ statements lines, Encodable settings lines s := by
  constructor
  · intro fine s member
    obtain ⟨line, place, content⟩ := mem_statements.mp member
    obtain ⟨w, encoded⟩ := fine line place _ content
    exact (Encoding.exists_statement_iff distinct admitted member).mp
      ⟨w, mapError_eq_ok_iff.mp encoded⟩
  · intro fine line place c content
    cases c with
    | constant c => exact ⟨c.stored, rfl⟩
    | statement s =>
      have member := mem_statements.mpr ⟨line, place, content⟩
      obtain ⟨w, encoded⟩ := (Encoding.exists_statement_iff distinct admitted member).mpr (fine s member)
      exact ⟨w, mapError_eq_ok_iff.mpr encoded⟩

theorem ofLines_ofPlan : Encoding.ofLines settings (Layout.ofPlan settings lines) lines =
    ((planned settings.origin lines).map Encoding.placeOf).foldl
      (Encoding.step settings (Layout.ofPlan settings lines))
      { collector := { limit := settings.maxErrors } } := by
  rw [Encoding.ofLines, Layout.zip_places]
  rfl

/-- A well-formed program becomes the assembly of its plan. -/
theorem generate_of_wellFormed (admitted : ∀ line ∈ lines, line.Admitted)
    (formed : WellFormed settings lines) :
    (generate settings lines file).outcome = .ok (assembled settings lines file) := by
  have layout := Layout.ofLines_of_placed admitted
    ⟨formed.labels_distinct, formed.locations_distinct, formed.locations_inside⟩ formed.below_literals
  have fine := (hasWord_iff formed.labels_distinct admitted).mpr formed.statements
  have words : ∀ entry ∈ planned settings.origin lines,
      Encoding.HasWord settings (Layout.ofPlan settings lines) entry.1 :=
    fun entry member => fine entry.1 (mem_of_mem_planned member)
  unfold generate
  rw [layout]
  dsimp only
  rw [ofLines_ofPlan, Encoding.foldl_step_of_hasWord rfl words]
  exact Collector.verdict_of_clean rfl

/-- A file that is assembled has no problems. -/
theorem clean_of_ok {a : Assembly} (success : (generate settings lines file).outcome = .ok a) :
    (generate settings lines file).collector.errors = [] :=
  (Collector.verdict_eq_ok_iff.mp success).1

/-- A program without problems is well-formed. -/
theorem wellFormed_of_clean (admitted : ∀ line ∈ lines, line.Admitted)
    (clean : (generate settings lines file).collector.errors = []) : WellFormed settings lines := by
  have before : (Layout.ofLines settings lines).collector.errors = [] :=
    List.prefix_nil.mp (clean ▸ Encoding.errors_foldl settings (Layout.ofLines settings lines)
      { collector := (Layout.ofLines settings lines).collector } _)
  obtain ⟨placed, below⟩ := Layout.placed_of_ofLines_clean admitted before
  have layout := Layout.ofLines_of_placed admitted placed below
  unfold generate at clean
  rw [layout] at clean
  dsimp only at clean
  rw [ofLines_ofPlan] at clean
  have fine := Encoding.hasWord_of_foldl_clean rfl clean
  have statements := (hasWord_iff placed.labels_distinct admitted).mp fun line member => by
    obtain ⟨here, place⟩ := exists_planned_of_mem settings.origin member
    exact fine _ place
  exact ⟨placed.labels_distinct, placed.locations_distinct, placed.locations_inside, statements, below⟩

end WordMachine
