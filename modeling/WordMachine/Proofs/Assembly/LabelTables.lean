import WordMachine.Proofs.Assembly.LastSource
import WordMachine.Proofs.Layout.Reuse

/-!
# Tables of labels

The labels of a program are bound in the first pass, and the assembly, the generator and the assembler show them. All
show one table, with the labels that the lines define; but an assembler shows it only for a program with a word. What it
asks of a program is whether it is empty, and a program of labels alone is (`labelsAlone_hidden`).
-/
namespace WordMachine

open Source

/-- Where the labels of a source text that was assembled are shown. -/
structure LabelsAgree (asm next : Assembler) (lines : List Line) (a : Assembly) : Prop where
  /-- The names of the table are the labels that the lines define, each once and in order. -/
  names : a.labels.map (·.1) = labelNames lines
  once : (a.labels.map (·.1)).Nodup
  located_iff : ∀ name, (∃ location, a.locationOf? name = some location) ↔ name ∈ labelNames lines
  /-- An entry of the listing carries the label that its line defines. -/
  listed : next.listing.map (·.label) = lines.map (·.label)
  /-- The generator that was used has the table, and so has any other with these settings. -/
  generation : next.generation.labels = a.labels
  generator : ∀ g : Generator, g.settings = asm.settings → (g.generate lines a.file).1.labels = a.labels
  assembler : (∃ line ∈ lines, line.emits = true) → next.labels = a.labels
  assembler_of_wordless : (∀ line ∈ lines, line.emits = false) → next.labels = []

variable {settings : AssemblySettings} {lines : List Line} {file : String} {a : Assembly}

/-! ## The table of an assembly -/

theorem map_fst_labels_assembled (settings : AssemblySettings) (lines : List Line) (file : String) :
    (assembled settings lines file).labels.map (·.1) = labelNames lines := by
  rw [← Layout.map_name_labels settings lines, assembled, Layout.labelTable, List.map_map]
  rfl

theorem exists_locationOf?_iff (a : Assembly) (name : String) :
    (∃ location, a.locationOf? name = some location) ↔ name ∈ a.labels.map (·.1) := by
  rw [← Option.isSome_iff_exists, Assembly.locationOf?, Option.isSome_iff_ne_none, ne_eq, List.lookup_eq_none_iff,
    List.mem_map]
  simp only [bne_iff_ne, ne_eq, not_forall, not_not, exists_prop]
  exact exists_congr fun _ => and_congr_right fun _ => eq_comm

/-- A listing shows the label of each line. -/
theorem map_label_listing (settings : AssemblySettings) (lines : List Line) (file : String) :
    (assembled settings lines file).listing.map (·.label) = lines.map (·.label) := by
  conv_rhs => rw [← map_fst_planned settings.origin lines, List.map_map]
  rw [assembled, List.map_map]
  rfl

/-- What is assembled has the labels that the first pass has bound. -/
theorem labels_of_generate (success : (generate settings lines file).outcome = .ok a) :
    (generate settings lines file).labels = a.labels :=
  congrArg Assembly.labels (Collector.verdict_eq_ok_iff.mp success).2

/-- A program has words exactly if one of its lines has. -/
theorem words_eq_nil_iff (admitted : ∀ line ∈ lines, line.Admitted) (formed : WellFormed settings lines) :
    (assembled settings lines file).words = [] ↔ ∀ line ∈ lines, line.emits = false := by
  have perm := @locations_perm settings lines file admitted formed
  constructor
  · intro empty line member
    by_contra emits
    obtain ⟨here, place⟩ := exists_planned_of_mem settings.origin member
    have stands := perm.mem_iff.mpr (mem_wordLocations.mpr ⟨line, place, Bool.not_eq_false _ ▸ emits⟩)
    rw [empty] at stands
    cases stands
  · intro silent
    refine List.eq_nil_iff_forall_not_mem.mpr fun w member => ?_
    obtain ⟨line, place, emits⟩ := mem_wordLocations.mp (perm.mem_iff.mp (List.mem_map_of_mem member))
    rw [silent line (mem_of_mem_planned place)] at emits
    cases emits

/-! ## The assembler -/

theorem labelsAgree_of_assembled {asm : Assembler} {parsed : ParsedFile Line} {generation : Generation}
    (admitted : ∀ line ∈ lines, line.Admitted) (passed : generate asm.settings lines file = generation)
    (success : generation.outcome = .ok a) :
    LabelsAgree asm { asm with parsed := some parsed, generation, assembly := some a, failure := none } lines a := by
  obtain ⟨formed, made⟩ := assembled_of_ok admitted (passed ▸ success)
  have table : generation.labels = a.labels := passed ▸ labels_of_generate (passed ▸ success)
  have names : a.labels.map (·.1) = labelNames lines := made ▸ map_fst_labels_assembled asm.settings lines file
  have empty_iff : a.words = [] ↔ ∀ line ∈ lines, line.emits = false := made ▸ words_eq_nil_iff admitted formed
  constructor
  case names => exact names
  case once => exact names ▸ formed.labels_distinct
  case located_iff =>
    intro name
    rw [exists_locationOf?_iff, names]
  case listed => exact made ▸ map_label_listing asm.settings lines file
  case generation => exact table
  case generator =>
    intro g same
    rw [Generator.generate_eq, same, ← table, ← passed, made]
    rfl
  case assembler =>
    rintro ⟨line, member, emits⟩
    have some : a.words ≠ [] := fun empty => by simp [empty_iff.mp empty line member] at emits
    exact if_neg (by simpa using some)
  case assembler_of_wordless =>
    intro silent
    exact if_pos (List.isEmpty_iff.mpr (empty_iff.mpr silent))

/-- Whatever an assembler was used for before, after a source text that is assembled its table of labels is shown
alike by the assembly, the generator and the listing, and by the assembler if a line has a word. -/
theorem label_tables_agree {asm : Assembler} {source : String}
    (success : (asm.assemble source file).value.2 = .ok a) :
    ∃ parsed, (parseSource source file).value = .ok parsed ∧
      parsed.lines.map (·.text) = Text.lines source ∧
      parsed.lines.map (·.number) = (List.range' 1 (Text.lines source).length).map Int.ofNat ∧
      LabelsAgree asm (asm.assemble source file).value.1 parsed.lines a := by
  have outcome := Assembler.outcome_of_assemble asm source file
  generalize (asm.assemble source file).value.1 = next at outcome ⊢
  rw [success] at outcome
  cases outcome with
  | @assembled parsed _ _ read whole passed made =>
    have admitted := fun line member => (isParsed_of_parseSource read line member).admitted
    exact ⟨parsed, read, texts_of_parseSource read whole, numbers_of_parseSource read whole,
      labelsAgree_of_assembled admitted passed made⟩

def labelledSource : String :=
  "START:\n; a word\nONE: +1\n\nEND: ; last"

/-- All of the places that show the labels show these three, those on lines of their own included. -/
theorem labelledSource_label_tables_agree :
    ∃ a, ((Assembler.new {}).assemble labelledSource "labels").value.2 = .ok a ∧
      a.labels = [("START", 8), ("ONE", 8), ("END", 9)] ∧
      ∃ parsed, (parseSource labelledSource "labels").value = .ok parsed ∧
        parsed.lines.map (·.text) = Text.lines labelledSource ∧
        parsed.lines.map (·.number) = (List.range' 1 (Text.lines labelledSource).length).map Int.ofNat ∧
        LabelsAgree (.new {}) ((Assembler.new {}).assemble labelledSource "labels").value.1 parsed.lines a := by
  have accepted : ((Assembler.new {}).assemble labelledSource "labels").value.2.toOption.map (·.labels) =
      some [("START", 8), ("ONE", 8), ("END", 9)] := by
    decide +kernel
  cases made : ((Assembler.new {}).assemble labelledSource "labels").value.2 with
  | error refusal =>
    rw [made] at accepted
    cases accepted
  | ok a =>
    rw [made] at accepted
    exact ⟨a, rfl, Option.some.inj accepted, label_tables_agree made⟩

/-- A program of a label alone has the label, and so has the generator; the assembler shows none. -/
theorem labelsAlone_hidden :
    let next := ((Assembler.new {}).assemble "A:" "alone").value.1
    (((Assembler.new {}).assemble "A:" "alone").value.2.toOption.map fun a => (a.labels, a.locationOf? "A")) =
        some ([("A", 8)], some 8) ∧
      next.generation.labels = [("A", 8)] ∧ next.listing.map (·.label) = [some "A"] ∧ next.labels = [] := by
  decide +kernel

end WordMachine
