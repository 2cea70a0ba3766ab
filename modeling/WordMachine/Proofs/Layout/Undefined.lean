import WordMachine.Proofs.Layout.Reports

/-!
# Which undefined labels are reported

A reference to a label that no line defines is reported when the word of its line is encoded, before
anything else about the word. Only words with a place are encoded, and a line whose own label or location
is at fault has none: what such a line refers to is not looked at (`clashingLines_hide_undefined_label`).
-/
namespace WordMachine

open Source

def Cause.undefinedLabel? : Cause → Option String
  | .undefinedLabel name _ => some name
  | _ => none

theorem undefinedLabel?_cause (e : FieldError) : e.cause.undefinedLabel? = none := by
  cases e <;> rfl

def Diagnostic.undefinedLabel? : Diagnostic → Option (String × Option Site × Option String)
  | .problem cause site sourceLine => cause.undefinedLabel?.map (·, site, sourceLine)
  | .failure _ => none

/-- The label that the statement of a line refers to and that no line of the program defines, with the site
of the operand and the line. -/
def Source.Line.undefined? (line : Line) (lines : List Line) :
    Option (String × Option Site × Option String) :=
  match line.content with
  | some (.statement s) =>
    (s.symbol?.filter (· ∉ labelNames lines)).map
      (·, some (line.site (Encoding.column s.operand)), some line.text)
  | _ => none

def placedLines (settings : AssemblySettings) (lines : List Line) : List Line :=
  (lines.zip (Layout.ofLines settings lines).places).filterMap fun (line, place) => place.map fun _ => line

/-! ## One statement -/

namespace Encoding

variable {settings : AssemblySettings} {l : Layout}

theorem resolve_of_symbol (settings : AssemblySettings) {s : Statement} {name : String}
    (symbol : s.symbol? = some name) (unbound : l.binding? name = none) : ∃ similar,
    resolve settings l s.operand = .error (.undefinedLabel name similar) := by
  unfold Statement.symbol? at symbol
  split at symbol
  next operand =>
    cases symbol
    refine ⟨Text.closeMatches name (l.labels.map (·.name)), ?_⟩
    simp only [operand, resolve, unbound]
  · cases symbol

/-- The word of a statement is refused for an undefined label exactly when its label is not bound. -/
theorem undefinedLabel?_problem? {line : Line} {place : Option Int} {lines : List Line}
    (bindings : ∀ name, l.binding? name = none ↔ name ∉ labelNames lines) :
    (problem? settings l (line, place)).bind Diagnostic.undefinedLabel? =
      (place.map fun _ => line).bind (·.undefined? lines) := by
  cases place with
  | none => rfl
  | some here =>
    show _ = line.undefined? lines
    unfold problem? wordAt? Line.undefined?
    cases present : line.content with
    | none => rfl
    | some c =>
      cases c with
      | constant c => rfl
      | statement s =>
        dsimp only [content]
        by_cases undefined : ∃ name, s.symbol? = some name ∧ name ∉ labelNames lines
        · obtain ⟨name, symbol, absent⟩ := undefined
          obtain ⟨similar, refused⟩ := resolve_of_symbol settings symbol
            ((bindings name).mpr absent)
          have failed : statement settings l s = .error (.undefinedLabel name similar) := by
            unfold statement
            rw [refused]
            rfl
          rw [failed, symbol, Option.filter_some_pos (by simpa using absent)]
          rfl
        · have silent : s.symbol?.filter (fun name => decide (name ∉ labelNames lines)) = none := by
            rw [Option.filter_eq_none_iff]
            intro name symbol absent
            exact undefined ⟨name, symbol, by simpa using absent⟩
          rw [silent]
          cases outcome : statement settings l s with
          | ok w => rfl
          | error cause =>
            show cause.undefinedLabel?.map _ = none
            cases refusedFor_of_statement outcome with
            | undefined similar symbol unbound => exact absurd ⟨_, symbol, (bindings _).mp unbound⟩ undefined
            | outside | unfit => rw [undefinedLabel?_cause, Option.map_none]

end Encoding

/-! ## The first pass -/

namespace Layout

variable {settings : AssemblySettings} {lines : List Line}

theorem undefinedLabel?_of_misplaced {taken : List (Int × Site)} {here : Int} {cause : Cause}
    (misplaced : Misplaced settings taken here cause) : cause.undefinedLabel? = none := by
  cases misplaced with
  | outside => exact undefinedLabel?_cause _
  | occupied => rfl

/-- The first pass reports no undefined label. -/
theorem undefinedLabel?_step {l : Layout} {line : Line}
    (silent : l.collector.errors.filterMap Diagnostic.undefinedLabel? = []) :
    (step settings l line).collector.errors.filterMap Diagnostic.undefinedLabel? = [] := by
  cases room : l.collector.isFull with
  | true => rwa [step_of_full room]
  | false =>
    have outcome := step_outcome settings line room
    generalize step settings l line = next at outcome
    cases outcome with
    | taken => exact silent
    | clash =>
      show (_ ++ [_]).filterMap _ = []
      rw [List.filterMap_append, silent]
      rfl
    | misplaced fresh emits problem =>
      show (_ ++ [_]).filterMap _ = []
      rw [List.filterMap_append, List.append_eq_nil_iff, List.filterMap_cons_none]
      · exact ⟨silent, rfl⟩
      · simp [Diagnostic.undefinedLabel?, undefinedLabel?_of_misplaced problem]

/-- The first pass says nothing of undefined labels. -/
theorem undefinedLabel?_ofLines :
    (ofLines settings lines).collector.errors.filterMap Diagnostic.undefinedLabel? = [] := by
  obtain ⟨first, more, made, overlaps⟩ := ofLines_eq settings lines
  rw [made]
  dsimp only
  rw [List.filterMap_append, List.append_eq_nil_iff, List.filterMap_eq_nil_iff (l := more)]
  constructor
  · exact List.foldlRecOn lines (step settings)
      (motive := fun l => l.collector.errors.filterMap Diagnostic.undefinedLabel? = [])
      (show (start settings).collector.errors.filterMap Diagnostic.undefinedLabel? = [] from rfl)
      fun _ silent _ _ => undefinedLabel?_step silent
  · intro d member
    obtain ⟨line, location, rfl⟩ := overlaps d member
    rfl

end Layout

/-! ## Both passes -/

variable {settings : AssemblySettings} {lines : List Line} {file : String}

/-- What a file whose problems stay below the limit says of undefined labels. -/
structure UndefinedReports (settings : AssemblySettings) (lines : List Line) (file : String) : Prop where
  /-- One report for each line with a place that refers to a label which no line defines, in their order,
  and no other report of an undefined label. -/
  reported : (generate settings lines file).collector.errors.filterMap Diagnostic.undefinedLabel? =
    (placedLines settings lines).filterMap (·.undefined? lines)
  /-- Reports are what a file fails with. -/
  fails : (generate settings lines file).collector.errors ≠ [] →
    (generate settings lines file).outcome = .error (.failed (generate settings lines file).collector.errors)
  /-- The lines with a place are those with a word that were taken: label, location and all. -/
  placed : ∀ before line after, lines = before ++ line :: after → ∃ place,
    (Layout.ofLines settings lines).places[before.length]? = some place ∧
    (place.isSome = true ↔ line.emits = true ∧
      Layout.Takes settings (before.foldl (Layout.step settings) (Layout.start settings)) line)

/-- A file whose problems stay below the limit has one report of an undefined label for each line that was given a
place and refers to a label that no line defines, in the order of the lines, and no other. -/
theorem undefined_labels_reported (room : (generate settings lines file).collector.isFull = false) :
    UndefinedReports settings lines file := by
  obtain ⟨first, more, made, -⟩ := Layout.ofLines_eq settings lines
  have second : (Encoding.ofLines settings (Layout.ofLines settings lines) lines).collector.isFull = false :=
    room
  have overlapped : (Layout.ofLines settings lines).collector.isFull = false :=
    (Encoding.grew_ofLines settings _ lines).room second
  have folded : (lines.foldl (Layout.step settings) (Layout.start settings)).collector.isFull = false :=
    Collector.Grew.room ⟨more, by rw [made]⟩ overlapped
  constructor
  case reported =>
    have bindings : ∀ name, (Layout.ofLines settings lines).binding? name = none ↔
        name ∉ labelNames lines := by
      rw [made]
      exact fun name => Layout.binding?_foldl_eq_none_iff folded
    show (Encoding.ofLines settings _ lines).collector.errors.filterMap _ = _
    rw [Encoding.ofLines, Encoding.errors_foldl_of_room second, List.filterMap_append,
      Layout.undefinedLabel?_ofLines, List.nil_append, placedLines, List.filterMap_filterMap,
      List.filterMap_filterMap]
    exact List.filterMap_congr fun entry _ => Encoding.undefinedLabel?_problem? bindings
  case fails => exact fun problems => Collector.verdict_of_room second problems
  case placed =>
    rintro before line after rfl
    rw [List.foldl_append] at folded
    have earlier := (Layout.grew_foldl settings _ _).room folded
    rw [made]
    exact Layout.places_foldl earlier

/-- Two jumps to labels that are not there, the second of them under a label that is defined already. -/
def clashingLines : List Line :=
  [⟨1, "JUMP A", none, none,
      some (.statement ⟨.jump, none, some (.address ⟨.label "A", none, false, 6⟩), none⟩), none, "clash"⟩,
    ⟨2, "X: +1", none, some "X", some (.constant (.integer 1)), none, "clash"⟩,
    ⟨3, "X: JUMP B", none, some "X",
      some (.statement ⟨.jump, none, some (.address ⟨.label "B", none, false, 9⟩), none⟩), none, "clash"⟩]

/-- The third line is not placed, so only the label of the first one is reported. -/
theorem clashingLines_undefined_labels_reported :
    (generate {} clashingLines "clash").collector.isFull = false ∧
    (placedLines {} clashingLines).map (·.number) = [1, 2] ∧ UndefinedReports {} clashingLines "clash" :=
  have room : (generate {} clashingLines "clash").collector.isFull = false := by decide +kernel
  ⟨room, by decide +kernel, undefined_labels_reported room⟩

/-- The second jump has no place, so it is not reported that its label is undefined. -/
theorem clashingLines_hide_undefined_label :
    ((parseSource "JUMP A\nX: +1\nX: JUMP B" "clash").value.toOption.map fun p => (p.ok, p.lines)) =
      some (true, clashingLines) ∧
    (generate {} clashingLines "clash").collector.isFull = false ∧
    clashingLines.filterMap (·.undefined? clashingLines) =
      [("A", some ⟨"clash", 1, 6⟩, some "JUMP A"), ("B", some ⟨"clash", 3, 9⟩, some "X: JUMP B")] ∧
    (generate {} clashingLines "clash").collector.errors.filterMap Diagnostic.undefinedLabel? =
      [("A", some ⟨"clash", 1, 6⟩, some "JUMP A")] := by
  decide +kernel

end WordMachine
