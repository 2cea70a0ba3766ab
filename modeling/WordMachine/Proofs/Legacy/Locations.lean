import WordMachine.Legacy.Program
import WordMachine.Proofs.Source.Annotated
import WordMachine.Proofs.Source.TokenPlaces

/-!
# Which lines of the legacy dialect repeat a location

A program is a map from locations to lines, so no two of its lines may have one location. The lines are taken up in
order: the first line with a location stays in the map, and each later one is reported once, against that first line
and not against another report (`Placed`). So a source whose lines can be read is a program exactly when the locations
of the lines that are not blank are distinct, and what is reported otherwise is written down without the map
(`repeats`).
-/
namespace WordMachine.Legacy

open Source

def firstAt (lines : List Line) (location : Nat) : Option Line :=
  lines.find? (·.location == location)

/-- The lines with a location that an earlier line has, in order, each with the first line that has it. -/
def repeats (lines : List Line) : List (Line × Line) :=
  lines.zipIdx.filterMap fun (line, i) => (firstAt (lines.take i) line.location).map (line, ·)

def report (file : String) : Line × Line → Diagnostic
  | (line, first) => .problem (.duplicateLocation line.location (some ⟨file, first.number, 1⟩))
    (some ⟨file, line.number, 1⟩) (some line.text)

/-- The lines of a source text with more on them than spaces and tabs, each after its number. -/
def written (source : String) : List (Int × String) :=
  ((Text.lines source).zipIdx 1).filterMap fun (text, n) =>
    if ∀ c ∈ text.toList, c = ' ' ∨ c = '\t' then none else some (Int.ofNat n, text)

/-- The map sends the location of each of the lines to that line, and has no other entries. -/
structure Program.Maps (p : Program) (lines : List Line) : Prop where
  length : p.length = lines.length
  lineAt : ∀ location line, p.lineAt? location = some line ↔ line ∈ lines ∧ line.location = location

/-- What comes of a source text whose lines can all be read. -/
structure Validated (source file : String) (lines : List Line) (result : Except Refusal Program) : Prop where
  written : lines.map (fun line => (line.number, line.text)) = written source
  accepted_iff : (∃ p, result = .ok p) ↔ (lines.map (·.location)).Nodup
  accepted : ∀ p, result = .ok p → p.Maps lines
  refused : ¬ (lines.map (·.location)).Nodup → result = .error (.failed
    ⟨(repeats lines).map (report file), (Text.lines source).map fun _ => true⟩)

/-! ## First lines and repeats -/

section

variable {lines : List Line} {line first : Line} {location : Nat}

theorem firstAt_eq_none_iff : firstAt lines location = none ↔ location ∉ lines.map (·.location) := by
  simp [firstAt]

theorem firstAt_concat (lines : List Line) (line : Line) (location : Nat) :
    firstAt (lines ++ [line]) location =
      (firstAt lines location).or (if line.location = location then some line else none) := by
  rw [firstAt, List.find?_append, firstAt]
  by_cases here : line.location = location <;> simp [here]

/-- The location of a line is that of the first line with it. -/
theorem location_of_firstAt (found : firstAt lines location = some line) : line.location = location := by
  simpa using List.find?_some found

theorem repeats_concat (lines : List Line) (line : Line) :
    repeats (lines ++ [line]) = repeats lines ++ ((firstAt lines line.location).map (line, ·)).toList := by
  rw [repeats, List.zipIdx_append, List.filterMap_append, repeats]
  congr 1
  · refine List.filterMap_congr ?_
    rintro ⟨other, i⟩ member
    have low := List.snd_lt_of_mem_zipIdx member
    dsimp only
    rw [List.take_append_of_le_length (by omega)]
  · cases found : firstAt lines line.location <;> simp [found]

/-- Nothing is repeated exactly if the locations are distinct. -/
theorem repeats_eq_nil_iff : repeats lines = [] ↔ (lines.map (·.location)).Nodup := by
  induction lines using List.reverseRecOn with
  | nil => simp [repeats]
  | append_singleton lines line ih =>
    rw [repeats_concat, List.append_eq_nil_iff, ih, Option.toList_eq_nil_iff, Option.map_eq_none_iff,
      firstAt_eq_none_iff, List.map_append, List.nodup_append]
    simp only [List.map_cons, List.map_nil, List.nodup_singleton, List.mem_singleton, true_and, forall_eq]
    exact and_congr_right fun _ => ⟨fun fresh other member same => fresh (same ▸ member),
      fun fresh member => fresh _ member rfl⟩

theorem mem_of_mem_repeats (member : (line, first) ∈ repeats lines) : line ∈ lines ∧ first ∈ lines := by
  obtain ⟨⟨same, i⟩, place, found⟩ := List.mem_filterMap.mp member
  obtain ⟨other, earlier, made⟩ := Option.map_eq_some_iff.mp found
  cases made
  exact ⟨List.fst_mem_of_mem_zipIdx place, List.mem_of_mem_take (List.mem_of_find?_eq_some earlier)⟩

end

/-! ## Taking up the lines -/

/-- What has become of some lines: the first ones with their locations stand in the map, and the others are
reported. -/
structure Placed (lines : List Line) (placed : List Line × List Diagnostic) : Prop where
  first : ∀ location, firstAt placed.1 location = firstAt lines location
  reports : placed.2 = (repeats lines).map fun (line, first) => repeated line first
  whole : repeats lines = [] → placed.1 = lines

theorem Placed.concat {lines : List Line} {placed : List Line × List Diagnostic} (before : Placed lines placed)
    (line : Line) : Placed (lines ++ [line]) (place placed line) := by
  have looked : placed.1.find? (·.location == line.location) = firstAt lines line.location :=
    before.first line.location
  unfold place
  rw [looked]
  cases found : firstAt lines line.location with
  | some first =>
    have repeated_here : repeats (lines ++ [line]) = repeats lines ++ [(line, first)] := by
      rw [repeats_concat, found]
      rfl
    constructor
    case first =>
      intro location
      rw [before.first, firstAt_concat]
      by_cases here : line.location = location
      · subst here
        rw [found, Option.some_or]
      · rw [if_neg here, Option.or_none]
    case reports => rw [repeated_here, List.map_append, before.reports, List.map_singleton]
    case whole => simp [repeated_here]
  | none =>
    have none_here : repeats (lines ++ [line]) = repeats lines := by
      rw [repeats_concat, found, Option.map_none, Option.toList_none, List.append_nil]
    constructor
    case first =>
      intro location
      rw [firstAt_concat, firstAt_concat, before.first]
    case reports => rw [none_here, before.reports]
    case whole =>
      intro clean
      rw [before.whole (none_here ▸ clean)]

/-- All lines are placed or reported. -/
theorem placed_foldl (lines : List Line) : Placed lines (lines.foldl place ([], [])) := by
  induction lines using List.reverseRecOn with
  | nil => exact ⟨fun _ => rfl, rfl, fun _ => rfl⟩
  | append_singleton lines line ih =>
    rw [List.foldl_append]
    exact ih.concat line

/-- In a map of lines with distinct locations a location has the line that gives it. -/
theorem firstAt_eq_some_iff {lines : List Line} (distinct : (lines.map (·.location)).Nodup) {location : Nat}
    {line : Line} : firstAt lines location = some line ↔ line ∈ lines ∧ line.location = location := by
  constructor
  · intro found
    exact ⟨List.mem_of_find?_eq_some found, location_of_firstAt found⟩
  · rintro ⟨member, rfl⟩
    cases found : firstAt lines line.location with
    | none => exact absurd (List.mem_map_of_mem member) (firstAt_eq_none_iff.mp found)
    | some other =>
      have same := List.inj_on_of_nodup_map distinct (List.mem_of_find?_eq_some found) member
        (location_of_firstAt found)
      rw [same]

/-- Lines at distinct locations are a program as they are. -/
theorem ofLines_of_distinct {lines : List Line} (distinct : (lines.map (·.location)).Nodup) (file : String) :
    Program.ofLines lines file = .ok ⟨lines, file⟩ := by
  have placed := placed_foldl lines
  have none := repeats_eq_nil_iff.mpr distinct
  unfold Program.ofLines
  dsimp only
  rw [placed.reports, none, placed.whole none]
  rfl

/-- Other lines are reported, each with the first line at its location. -/
theorem ofLines_of_repeats {lines : List Line} (repeated_some : ¬ (lines.map (·.location)).Nodup) (file : String) :
    Program.ofLines lines file =
      .error ((repeats lines).map fun (line, first) => repeated line first) := by
  have some : repeats lines ≠ [] := mt repeats_eq_nil_iff.mp repeated_some
  unfold Program.ofLines
  dsimp only
  rw [(placed_foldl lines).reports, if_neg (by simpa using some)]

/-! ## Source texts -/

/-- A line is blank if it holds spaces and tabs only; any other line keeps its number, its text and its file. -/
theorem read_of_ofTokens {text file : String} {number : Int} {tokens : List Token} {line? : Option Line}
    (scanned : Token.ofLine legacyRules text = .ok tokens)
    (read : Line.ofTokens tokens text file number = .ok line?) :
    line?.map (fun line => (line.number, line.text)) =
      (if ∀ c ∈ text.toList, c = ' ' ∨ c = '\t' then none else some (number, text)) ∧
    ∀ line ∈ line?, line.file = file := by
  have blank_iff := Token.kind_current_ofLine scanned
  unfold Line.ofTokens at read
  split at read
  next ends =>
    cases read
    rw [if_pos (blank_iff.mp ends)]
    exact ⟨rfl, by simp⟩
  next further =>
    rw [if_neg (mt blank_iff.mpr further)]
    split at read
    · cases read
    · cases read
      exact ⟨rfl, by simp⟩

section

variable {source file : String} {parsed : ParsedFile Line}
  (read : (parseSource source file).value = .ok parsed) (whole : parsed.ok = true)
include read whole

/-- A line that was read knows its number and its text; a blank one is no line. -/
theorem line?_of_parseSource {r : LineResult Line} (member : r ∈ parsed.results) :
    r.line?.map (fun line => (line.number, line.text)) =
      (if ∀ c ∈ r.text.toList, c = ' ' ∨ c = '\t' then none else some (Int.ofNat r.number, r.text)) ∧
    ∀ line ∈ r.line?, line.file = file := by
  have byLines := readByLines legacy_reads source file
  obtain ⟨reading, made, outcome⟩ := byLines.alone parsed read r member
  have unbroken : Text.Unbroken r.text.toList :=
    Text.unbroken_of_mem_lines (byLines.texts parsed read ▸ List.mem_map_of_mem member)
  rw [legacyParse_eq unbroken] at made
  obtain ⟨tokens, scanned, rfl⟩ := map_eq_ok_iff.mp made
  dsimp only at outcome
  cases value : Line.ofTokens tokens r.text file r.number with
  | error d =>
    have failed : r.error? = some d := by rw [LineResult.error?, outcome, value]
    have reported : d ∈ parsed.errors := List.mem_filterMap.mpr ⟨r, member, failed⟩
    rw [List.isEmpty_iff.mp whole] at reported
    cases reported
  | ok line? =>
    have present : r.line? = line? := by rw [LineResult.line?, outcome, value]
    rw [present]
    exact read_of_ofTokens scanned value

/-- The lines that are read are those that are not blank. -/
theorem written_of_parseSource : parsed.lines.map (fun line => (line.number, line.text)) = written source := by
  rw [ParsedFile.lines, List.map_filterMap]
  exact (readByLines legacy_reads source file).filterMap_results read fun r member =>
    (line?_of_parseSource read whole member).1

theorem file_of_parseSource {line : Line} (member : line ∈ parsed.lines) : line.file = file := by
  obtain ⟨r, place, present⟩ := List.mem_filterMap.mp member
  exact (line?_of_parseSource read whole place).2 line present

theorem linesRead_of_parseSource : parsed.results.map (·.ok) = (Text.lines source).map fun _ => true := by
  rw [← (readByLines legacy_reads source file).texts parsed read, List.map_map]
  refine List.map_congr_left fun r member => ?_
  cases outcome : r.outcome with
  | error d =>
    have failed : r.error? = some d := by rw [LineResult.error?, outcome]
    have reported : d ∈ parsed.errors := List.mem_filterMap.mpr ⟨r, member, failed⟩
    rw [List.isEmpty_iff.mp whole] at reported
    cases reported
  | ok line? =>
    rw [LineResult.ok, outcome]
    rfl

/-- A source text whose lines can be read is a program exactly when no two of its lines that are not blank have one
location; then the map sends each of these locations to its line. Otherwise each line whose location an earlier line
has is reported once, in order, against the first line with that location. -/
theorem locations_validated (c : Checker) :
    Validated source file parsed.lines (c.assemble source file).value.2 := by
  have outcome : (c.assemble source file).value.2 =
      (Program.ofLines parsed.lines file).mapError fun errors => .failed (parseFailure parsed errors) := by
    simp [Checker.assemble, Warned.map, read, whole]
  rw [outcome]
  by_cases distinct : (parsed.lines.map (·.location)).Nodup
  · rw [ofLines_of_distinct distinct]
    constructor
    case written => exact written_of_parseSource read whole
    case accepted_iff => exact iff_of_true ⟨_, rfl⟩ distinct
    case accepted =>
      intro p made
      cases made
      exact ⟨rfl, fun location line => firstAt_eq_some_iff distinct⟩
    case refused => exact fun clash => absurd distinct clash
  · rw [ofLines_of_repeats distinct]
    constructor
    case written => exact written_of_parseSource read whole
    case accepted_iff => exact iff_of_false nofun distinct
    case accepted => nofun
    case refused =>
      intro _
      have reports : ((repeats parsed.lines).map fun (line, first) => repeated line first) =
          (repeats parsed.lines).map (report file) := by
        refine List.map_congr_left ?_
        rintro ⟨line, first⟩ member
        obtain ⟨mine, earlier⟩ := mem_of_mem_repeats member
        simp only [repeated, report, Line.site, file_of_parseSource read whole mine,
          file_of_parseSource read whole earlier]
      rw [reports, ← linesRead_of_parseSource read whole]
      rfl

end

/-- Three lines at one location and two at another, with a blank line between them. -/
def repeatingSource : String :=
  "10 STOP\n\n11 +1\n10 +2 again\n \t\n11 <A>\n10 READ"

/-- The fourth line repeats the location of the first, the sixth that of the third, and the seventh that of the first
again. -/
theorem repeatingSource_validated : ∃ parsed,
    (parseSource repeatingSource "repeat").value = .ok parsed ∧ parsed.ok = true ∧
    (repeats parsed.lines).map (fun (line, first) => (line.number, first.number)) = [(4, 1), (6, 3), (7, 1)] ∧
    Validated repeatingSource "repeat" parsed.lines (Checker.assemble {} repeatingSource "repeat").value.2 := by
  have accepted : ((parseSource repeatingSource "repeat").value.toOption.map fun p =>
      (p.ok, (repeats p.lines).map fun (line, first) => (line.number, first.number))) =
      some (true, [(4, 1), (6, 3), (7, 1)]) := by
    decide +kernel
  cases read : (parseSource repeatingSource "repeat").value with
  | error e =>
    rw [read] at accepted
    cases accepted
  | ok parsed =>
    rw [read] at accepted
    obtain ⟨whole, numbers⟩ := Prod.mk.inj (Option.some.inj accepted)
    exact ⟨parsed, rfl, whole, numbers, locations_validated read whole {}⟩

end WordMachine.Legacy
