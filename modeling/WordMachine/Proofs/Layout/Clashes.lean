import WordMachine.Proofs.Layout.Reports

/-!
# Which repeated locations are reported

By the rule of the dialect every line with a word takes a location and moves the counter on, whatever else
is wrong with it. The first pass follows the rule only until it refuses a line: a line that is refused takes
no location, and the counter stays where it is. What it reports are the clashes of the plan in which refused
lines have no word (`settled`). These are the clashes of the rule itself if every line after a clash gives
its location and no line with a word repeats a label; otherwise a line may be blamed for the clash before it,
and a clash may be missed (`driftingLines_misreported`).
-/
namespace WordMachine

open Source

/-! ## Clashes of a plan -/

def Source.Line.withoutWord (line : Line) : Line :=
  { line with content := none }

def wordSites (origin : Int) (lines : List Line) : List (Int × Site) :=
  (planned origin lines).flatMap fun (line, here) => if line.emits then [(here, line.site 1)] else []

def Source.Line.Fresh (line : Line) (before : List Line) : Prop :=
  ∀ name ∈ line.label, name ∉ labelNames before

instance (line : Line) (before : List Line) : Decidable (line.Fresh before) :=
  inferInstanceAs (Decidable (∀ name ∈ line.label, name ∉ labelNames before))

/-- The word of the line, if it has one, is inside memory after the others. -/
def Source.Line.Inside (settings : AssemblySettings) (before : List Line) (line : Line) : Prop :=
  line.emits = true → 0 ≤ line.here (counterAfter settings.origin before) ∧
    line.here (counterAfter settings.origin before) ≤ settings.memorySize - 1

instance (settings : AssemblySettings) (before : List Line) (line : Line) :
    Decidable (line.Inside settings before) :=
  inferInstanceAs (Decidable (_ → _))

/-- A location that is used twice, the line that used it first, and the line that is reported. -/
structure Clash where
  location : Int
  first : Site
  site : Site
  text : String
  deriving DecidableEq, Repr

def Clash.diagnostic (c : Clash) : Diagnostic :=
  .problem (.duplicateLocation c.location (some c.first)) (some c.site) (some c.text)

/-- The clash of the word of a line with those of the lines before it. A line that repeats a label is not
looked at, nor is one outside memory. -/
def clash? (settings : AssemblySettings) (before : List Line) (line : Line) : Option Clash :=
  let here := line.here (counterAfter settings.origin before)
  if line.emits = true ∧ line.Fresh before ∧ line.Inside settings before then
    ((wordSites settings.origin before).lookup here).map (⟨here, ·, line.site 1, line.text⟩)
  else none

def withEarlier (before : List Line) : List Line → List (List Line × Line)
  | [] => []
  | line :: rest => (before, line) :: withEarlier (before ++ [line]) rest

/-- The clashes of all lines, in their order, when `program` says what stands before each of them. -/
def clashes (settings : AssemblySettings) (program : List Line → List Line) (lines : List Line) : List Clash :=
  (withEarlier [] lines).filterMap fun entry => clash? settings (program entry.1) entry.2

/-- The line is taken after others: it repeats no label, and the location of its word is inside memory and
free. -/
def Source.Line.Stands (settings : AssemblySettings) (before : List Line) (line : Line) : Prop :=
  line.Fresh before ∧ line.Inside settings before ∧
    (line.emits = true → line.here (counterAfter settings.origin before) ∉ wordLocations settings.origin before)

instance (settings : AssemblySettings) (before : List Line) (line : Line) :
    Decidable (line.Stands settings before) :=
  inferInstanceAs (Decidable (_ ∧ _ ∧ (_ → _)))

/-- The lines, those that are refused without their words. -/
def settled (settings : AssemblySettings) (lines : List Line) : List Line :=
  lines.foldl (fun kept line => kept ++ [if line.Stands settings kept then line else line.withoutWord]) []

section

variable {settings : AssemblySettings} {before lines : List Line} {line : Line}

theorem withEarlier_concat (before lines : List Line) (line : Line) :
    withEarlier before (lines ++ [line]) = withEarlier before lines ++ [(before ++ lines, line)] := by
  induction lines generalizing before with
  | nil => simp [withEarlier]
  | cons first rest ih => simp [withEarlier, ih]

theorem clashes_concat (settings : AssemblySettings) (program : List Line → List Line) (lines : List Line)
    (line : Line) : clashes settings program (lines ++ [line]) =
      clashes settings program lines ++ (clash? settings (program lines) line).toList := by
  rw [clashes, withEarlier_concat, List.filterMap_append, List.nil_append, List.filterMap_cons]
  dsimp only
  cases clash? settings (program lines) line <;> rfl

theorem settled_concat (settings : AssemblySettings) (lines : List Line) (line : Line) :
    settled settings (lines ++ [line]) = settled settings lines ++
      [if line.Stands settings (settled settings lines) then line else line.withoutWord] := by
  rw [settled, List.foldl_append]
  rfl

theorem labelNames_settled (settings : AssemblySettings) (lines : List Line) :
    labelNames (settled settings lines) = labelNames lines := by
  induction lines using List.reverseRecOn with
  | nil => rfl
  | append_singleton before line ih =>
    rw [settled_concat, labelNames_concat, labelNames_concat, ih]
    split <;> rfl

theorem wordSites_concat (origin : Int) (lines : List Line) (line : Line) :
    wordSites origin (lines ++ [line]) = wordSites origin lines ++
      if line.emits then [(line.here (counterAfter origin lines), line.site 1)] else [] := by
  rw [wordSites, planned_concat, List.flatMap_append]
  simp [wordSites]

/-- A line without its word takes no location, but one that it gives moves the counter. -/
theorem wordSites_withoutWord (origin : Int) (lines : List Line) (line : Line) :
    wordSites origin (lines ++ [line.withoutWord]) = wordSites origin lines := by
  rw [wordSites_concat]
  exact List.append_nil _

theorem counterAfter_withoutWord (origin : Int) (lines : List Line) (line : Line) :
    counterAfter origin (lines ++ [line.withoutWord]) = line.here (counterAfter origin lines) := by
  rw [counterAfter_concat]
  rfl

theorem fresh_iff : line.Fresh lines ↔ ∀ name, line.label = some name → name ∉ labelNames lines :=
  Iff.rfl

theorem fresh_settled_iff : line.Fresh (settled settings lines) ↔ line.Fresh lines := by
  rw [Line.Fresh, Line.Fresh, labelNames_settled]

theorem lookup_wordSites_eq_none_iff {origin here : Int} :
    (wordSites origin lines).lookup here = none ↔ here ∉ wordLocations origin lines :=
  @Layout.lookup_taken_eq_none_iff { origin } _ _

/-- Lines that are placed one after the other are all kept. -/
theorem settled_of_placed (placed : Layout.Placed settings lines) : settled settings lines = lines := by
  induction lines using List.reverseRecOn with
  | nil => rfl
  | append_singleton before line ih =>
    obtain ⟨earlier, takes⟩ := Layout.placed_concat_iff.mp placed
    have stands : line.Stands settings before := by
      refine ⟨fun name label => ?_, takes.inside, fun emits => ?_⟩
      · exact Layout.binding?_ofPlan_eq_none_iff.mp (takes.label name label)
      · exact Layout.lookup_taken_eq_none_iff.mp (takes.free emits)
    rw [settled_concat, ih earlier, if_pos stands]

end

/-! ## Reports -/

def Diagnostic.repeatsLocation : Diagnostic → Bool
  | .problem (.duplicateLocation _ _) _ _ => true
  | _ => false

theorem repeatsLocation_cause (e : FieldError) (site : Option Site) (text : Option String) :
    (Diagnostic.problem e.cause site text).repeatsLocation = false := by
  cases e <;> rfl

namespace Layout

variable {settings : AssemblySettings} {lines : List Line} {l : Layout} {line : Line}

/-- The layout after some lines is that of the settled lines, and its reports are of their clashes. -/
structure Settles (settings : AssemblySettings) (lines : List Line) (l : Layout) : Prop where
  counter : l.counter = counterAfter settings.origin (settled settings lines)
  taken : l.taken = wordSites settings.origin (settled settings lines)
  bindings : ∀ name, l.binding? name = none ↔ name ∉ labelNames lines
  reports : l.collector.errors.filter Diagnostic.repeatsLocation =
    (clashes settings (settled settings) lines).map Clash.diagnostic

theorem Settles.fresh_iff (settles : Settles settings lines l) : line.Fresh (settled settings lines) ↔
    ∀ name, line.label = some name → l.binding? name = none := by
  rw [fresh_settled_iff, WordMachine.fresh_iff]
  simp only [settles.bindings]

/-- A layout takes the lines that stand after the settled ones. -/
theorem Settles.takes_iff (settles : Settles settings lines l) :
    Takes settings l line ↔ line.Stands settings (settled settings lines) := by
  have free : l.taken.lookup (line.here l.counter) = none ↔ line.here (counterAfter settings.origin
      (settled settings lines)) ∉ wordLocations settings.origin (settled settings lines) := by
    rw [settles.taken, settles.counter, lookup_wordSites_eq_none_iff]
  rw [Line.Stands, Line.Inside, settles.fresh_iff, ← free, ← settles.counter]
  exact ⟨fun ⟨label, inside, free⟩ => ⟨label, inside, free⟩, fun ⟨label, inside, free⟩ => ⟨label, inside, free⟩⟩

/-- A line that is taken stands without a clash. -/
theorem clash?_of_stands {before : List Line} (stands : line.Stands settings before) :
    clash? settings before line = none := by
  unfold clash?
  dsimp only
  split
  next emits =>
    rw [Option.map_eq_none_iff, lookup_wordSites_eq_none_iff]
    exact stands.2.2 emits.1
  · rfl

/-- A line that is refused leaves the settled lines only with its label and with a location that it gives. -/
theorem Settles.refuse (settles : Settles settings lines l) (refused : ¬ Takes settings l line) {next : Layout}
    (counter : next.counter = line.here l.counter) (taken : next.taken = l.taken)
    (bindings : ∀ name, next.binding? name = none ↔ name ∉ labelNames (lines ++ [line]))
    (reports : next.collector.errors.filter Diagnostic.repeatsLocation =
      l.collector.errors.filter Diagnostic.repeatsLocation ++
        (clash? settings (settled settings lines) line).toList.map Clash.diagnostic) :
    Settles settings (lines ++ [line]) next := by
  have same : settled settings (lines ++ [line]) = settled settings lines ++ [line.withoutWord] := by
    rw [settled_concat, if_neg fun stands => refused (settles.takes_iff.mpr stands)]
  refine ⟨?_, ?_, bindings, ?_⟩
  · rw [same, counterAfter_withoutWord, ← settles.counter, counter]
  · rw [same, wordSites_withoutWord, ← settles.taken, taken]
  · rw [clashes_concat, List.map_append, ← settles.reports, reports]

section

variable (settles : Settles settings lines l)
include settles

/-- A line that is outside memory clashes with no other. -/
theorem Settles.clash?_of_outside (emits : line.emits = true)
    (outside : ¬ (0 ≤ line.here l.counter ∧ line.here l.counter ≤ settings.memorySize - 1)) :
    clash? settings (settled settings lines) line = none := by
  refine if_neg fun clash => outside ?_
  rw [settles.counter]
  exact clash.2.2 emits

/-- A line clashes with the settled line whose word is where its own is to be. -/
theorem Settles.clash?_of_occupied (emits : line.emits = true) (fresh : line.Fresh (settled settings lines))
    (inside : 0 ≤ line.here l.counter ∧ line.here l.counter ≤ settings.memorySize - 1) {first : Site}
    (found : l.taken.lookup (line.here l.counter) = some first) :
    clash? settings (settled settings lines) line = some ⟨line.here l.counter, first, line.site 1, line.text⟩ := by
  unfold clash?
  dsimp only
  rw [settles.counter] at inside found ⊢
  rw [if_pos ⟨emits, fresh, fun _ => inside⟩, ← settles.taken, found]
  rfl

/-- One line keeps the layout that of the settled lines. -/
theorem Settles.step (room : l.collector.isFull = false) :
    Settles settings (lines ++ [line]) (step settings l line) := by
  have bindings : ∀ name, (Layout.step settings l line).binding? name = none ↔
      name ∉ labelNames (lines ++ [line]) := by
    intro name
    rw [binding?_step_eq_none_iff room, settles.bindings, labelNames_concat]
    simp
  have outcome := step_outcome settings line room
  generalize Layout.step settings l line = next at outcome bindings
  cases outcome with
  | taken takes =>
    have stands := settles.takes_iff.mp takes
    have same : settled settings (lines ++ [line]) = settled settings lines ++ [line] := by
      rw [settled_concat, if_pos stands]
    refine ⟨?_, ?_, bindings, ?_⟩
    · rw [same, counterAfter_concat, ← settles.counter]
      rfl
    · rw [same, wordSites_concat, ← settles.taken, ← settles.counter]
      rfl
    · rw [clashes_concat, clash?_of_stands stands, Option.toList_none, List.append_nil]
      exact settles.reports
  | @clash name first label bound =>
    have repeated : ¬ line.Fresh (settled settings lines) := by
      intro fresh
      cases bound.symm.trans (settles.fresh_iff.mp fresh name label)
    have silent : clash? settings (settled settings lines) line = none := if_neg fun clash => repeated clash.2.1
    refine settles.refuse (fun takes => repeated (settles.takes_iff.mp takes).1) rfl rfl bindings ?_
    rw [silent]
    exact List.filter_append _ _
  | @misplaced cause fresh emits problem =>
    cases problem with
    | outside outside =>
      refine settles.refuse (fun takes => outside (takes.inside emits)) rfl rfl bindings ?_
      have other := repeatsLocation_cause (FieldOverflow.error ⟨"location", line.here l.counter, 0,
        settings.memorySize - 1⟩) (some (line.site 1)) (some line.text)
      rw [settles.clash?_of_outside emits outside]
      refine (List.filter_append _ _).trans ?_
      rw [List.filter_cons, if_neg (by simp [other])]
      rfl
    | @occupied first inside found =>
      have taken : l.taken.lookup (line.here l.counter) ≠ none := by simp [found]
      refine settles.refuse (fun takes => taken (takes.free emits)) rfl rfl bindings ?_
      rw [settles.clash?_of_occupied emits (settles.fresh_iff.mpr fresh) inside found]
      exact List.filter_append _ _

end

/-- While there is room for problems the first pass settles the lines. -/
theorem settles_foldl (room : (lines.foldl (Layout.step settings) (start settings)).collector.isFull = false) :
    Settles settings lines (lines.foldl (Layout.step settings) (start settings)) := by
  induction lines using List.reverseRecOn with
  | nil => exact ⟨rfl, rfl, fun name => by simp [start, binding?, labelNames], rfl⟩
  | append_singleton before line ih =>
    rw [List.foldl_append] at room ⊢
    have earlier := (grew_step settings _ line).room room
    exact (ih earlier).step earlier

/-- What the literal table needs is reported otherwise. -/
theorem repeatsLocation_ofLines (settings : AssemblySettings) (lines : List Line) :
    (ofLines settings lines).collector.errors.filter Diagnostic.repeatsLocation =
      (lines.foldl (Layout.step settings) (start settings)).collector.errors.filter Diagnostic.repeatsLocation := by
  obtain ⟨first, more, made, overlaps⟩ := ofLines_eq settings lines
  have silent : more.filter Diagnostic.repeatsLocation = [] := by
    rw [List.filter_eq_nil_iff]
    intro d member
    obtain ⟨line, location, rfl⟩ := overlaps d member
    exact Bool.false_ne_true
  rw [made]
  dsimp only
  rw [List.filter_append, silent, List.append_nil]

end Layout

/-! ## The second pass -/

namespace Encoding

variable {settings : AssemblySettings} {l : Layout}

/-- No word is refused for its location. -/
theorem repeatsLocation_of_problem? {entry : Line × Option Int} {d : Diagnostic}
    (problem : problem? settings l entry = some d) : d.repeatsLocation = false := by
  unfold problem? wordAt? at problem
  split at problem
  next encoded =>
    cases problem
    split at encoded
    next location c _ _ =>
      cases c with
      | constant c => cases encoded
      | statement s =>
        obtain ⟨cause, refused, rfl⟩ := mapError_eq_error_iff.mp (Prod.mk.inj (Option.some.inj encoded)).2
        cases refusedFor_of_statement refused with
        | undefined => rfl
        | outside | unfit => exact repeatsLocation_cause _ _ _
    · cases encoded
  · cases problem

theorem repeatsLocation_ofLines (settings : AssemblySettings) (l : Layout) (lines : List Line) :
    (ofLines settings l lines).collector.errors.filter Diagnostic.repeatsLocation =
      l.collector.errors.filter Diagnostic.repeatsLocation := by
  refine List.foldlRecOn (lines.zip l.places) (step settings l)
    (motive := fun p : Progress => p.collector.errors.filter Diagnostic.repeatsLocation =
      l.collector.errors.filter Diagnostic.repeatsLocation)
    (show l.collector.errors.filter _ = _ from rfl) fun p same entry _ => ?_
  cases room : p.collector.isFull with
  | true =>
    rw [show step settings l p entry = p by simp [step, room]]
    exact same
  | false =>
    rw [collector_step room]
    dsimp only
    rw [List.filter_append, same]
    cases problem : problem? settings l entry with
    | none => simp
    | some d => simp [repeatsLocation_of_problem? problem]

end Encoding

/-! ## Clashes by the rule of the dialect -/

/-- The counter is set anew after each clash: no line with a word repeats a label, all words are inside
memory, and the line after a clash gives its location. -/
structure Resumes (settings : AssemblySettings) (lines : List Line) : Prop where
  fresh : ∀ before line after, lines = before ++ line :: after → line.emits = true → line.Fresh before
  inside : ∀ here ∈ wordLocations settings.origin lines, 0 ≤ here ∧ here ≤ settings.memorySize - 1
  located : ∀ before line next after, lines = before ++ line :: next :: after → line.emits = true →
    line.here (counterAfter settings.origin before) ∈ wordLocations settings.origin before →
    next.location.isSome = true

section

variable {settings : AssemblySettings} {before lines : List Line} {line : Line}

/-- The settled lines occupy what the lines occupy by the rule, and agree with them on where the next line
is. -/
structure Agrees (settings : AssemblySettings) (lines before : List Line) : Prop where
  sites : ∀ here, (wordSites settings.origin (settled settings before)).lookup here =
    (wordSites settings.origin before).lookup here
  counter : ∀ line after, lines = before ++ line :: after →
    line.here (counterAfter settings.origin (settled settings before)) =
      line.here (counterAfter settings.origin before)

theorem Agrees.clash? (agrees : Agrees settings lines before) {after : List Line}
    (split : lines = before ++ line :: after) :
    clash? settings (settled settings before) line = WordMachine.clash? settings before line := by
  have here := agrees.counter line after split
  unfold WordMachine.clash?
  dsimp only
  rw [here, agrees.sites]
  refine if_congr ?_ rfl rfl
  rw [fresh_settled_iff, Line.Inside, Line.Inside, here]

/-- Only a clash keeps a line from standing. -/
theorem Resumes.taken_of_refused (resumes : Resumes settings lines) (agrees : Agrees settings lines before)
    {after : List Line} (split : lines = before ++ line :: after) (emits : line.emits = true)
    (refused : ¬ line.Stands settings (settled settings before)) :
    line.here (counterAfter settings.origin before) ∈ wordLocations settings.origin before := by
  have here := agrees.counter line after split
  have inside := resumes.inside (line.here (counterAfter settings.origin before)) (by
    refine mem_wordLocations.mpr ⟨line, ?_, emits⟩
    rw [split, planned_append]
    exact List.mem_append_right _ List.mem_cons_self)
  by_contra free
  refine refused ⟨fresh_settled_iff.mpr (resumes.fresh before line after split emits), fun _ => ?_, fun _ => ?_⟩
  · rwa [here]
  · rwa [here, ← lookup_wordSites_eq_none_iff, agrees.sites, lookup_wordSites_eq_none_iff]

theorem Agrees.concat (resumes : Resumes settings lines) (agrees : Agrees settings lines before)
    {after : List Line} (split : lines = before ++ line :: after) :
    Agrees settings lines (before ++ [line]) := by
  have here := agrees.counter line after split
  by_cases stands : line.Stands settings (settled settings before)
  · have same : settled settings (before ++ [line]) = settled settings before ++ [line] := by
      rw [settled_concat, if_pos stands]
    refine ⟨fun place => ?_, fun next rest _ => ?_⟩
    · rw [same, wordSites_concat, wordSites_concat, List.lookup_append, List.lookup_append, agrees.sites, here]
    · rw [same, counterAfter_concat, counterAfter_concat, Line.next, Line.next, here]
  · have same : settled settings (before ++ [line]) = settled settings before ++ [line.withoutWord] := by
      rw [settled_concat, if_neg stands]
    refine ⟨fun place => ?_, fun next rest longer => ?_⟩
    · rw [same, wordSites_withoutWord, agrees.sites, wordSites_concat, List.lookup_append]
      split
      next emits =>
        have taken := resumes.taken_of_refused agrees split emits stands
        by_cases own : place = line.here (counterAfter settings.origin before)
        · obtain ⟨first, found⟩ := Option.ne_none_iff_exists'.mp
            (mt lookup_wordSites_eq_none_iff.mp (not_not.mpr taken))
          rw [own, found, Option.some_or]
        · have other : (place == line.here (counterAfter settings.origin before)) = false :=
            beq_eq_false_iff_ne.mpr own
          simp [List.lookup, other]
      · simp
    · rw [same, counterAfter_withoutWord, here, counterAfter_concat, Line.next]
      split
      next emits =>
        have taken := resumes.taken_of_refused agrees split emits stands
        obtain ⟨location, gives⟩ := Option.isSome_iff_exists.mp
          (resumes.located before line next rest (by simpa using longer) emits taken)
        simp [Line.here, gives]
      · rfl

/-- While the counter is set anew after each clash, the clashes are those of the rule. -/
theorem agrees_and_clashes (resumes : Resumes settings lines) {after : List Line}
    (split : lines = before ++ after) : Agrees settings lines before ∧
      clashes settings (settled settings) before = clashes settings id before := by
  induction before using List.reverseRecOn generalizing after with
  | nil => exact ⟨⟨fun _ => rfl, fun _ _ _ => rfl⟩, rfl⟩
  | append_singleton earlier line ih =>
    have inner : lines = earlier ++ line :: after := by simp [split]
    obtain ⟨agrees, same⟩ := ih inner
    refine ⟨agrees.concat resumes inner, ?_⟩
    rw [clashes_concat, clashes_concat, same, agrees.clash? inner]
    rfl

end

/-! ## Both passes -/

/-- What a file says of repeated locations while its first pass has room for problems. -/
structure ClashReports (settings : AssemblySettings) (lines : List Line) (file : String) : Prop where
  /-- The first pass reports the clashes that are left when refused lines have no word, in the order of the
  lines, and no others. -/
  reported : (Layout.ofLines settings lines).collector.errors.filter Diagnostic.repeatsLocation =
    (clashes settings (settled settings) lines).map Clash.diagnostic
  /-- The second pass adds none. -/
  handed_on : (generate settings lines file).collector.errors.filter Diagnostic.repeatsLocation =
    (clashes settings (settled settings) lines).map Clash.diagnostic
  /-- Up to the first line that is refused these are the clashes of the rule. -/
  undisturbed : ∀ before line after, lines = before ++ line :: after → Layout.Placed settings before →
    clash? settings (settled settings before) line = clash? settings before line
  /-- All of them are if the counter is set anew after each clash. -/
  by_rule : Resumes settings lines →
    clashes settings (settled settings) lines = clashes settings id lines

/-- A file whose first pass has room for problems has one report for each clash of its lines with the settled lines
before them, in order. These are the clashes by the rule wherever none was before, and all of them if the counter is
set anew after each. -/
theorem repeated_locations_reported {settings : AssemblySettings} {lines : List Line} {file : String}
    (room : (Layout.ofLines settings lines).collector.isFull = false) : ClashReports settings lines file := by
  obtain ⟨first, more, made, -⟩ := Layout.ofLines_eq settings lines
  have folded : (lines.foldl (Layout.step settings) (Layout.start settings)).collector.isFull = false :=
    Collector.Grew.room ⟨more, by rw [made]⟩ room
  have reported := (Layout.repeatsLocation_ofLines settings lines).trans (Layout.settles_foldl folded).reports
  constructor
  case reported => exact reported
  case handed_on => exact (Encoding.repeatsLocation_ofLines settings _ lines).trans reported
  case undisturbed =>
    intro before line after _ placed
    rw [settled_of_placed placed]
  case by_rule =>
    intro resumes
    exact (agrees_and_clashes resumes (List.append_nil lines).symm).2

def resumingLines : List Line :=
  [⟨1, "0010 +1", some 10, none, some (.constant (.integer 1)), none, "resume"⟩,
    ⟨2, "0010 +2", some 10, none, some (.constant (.integer 2)), none, "resume"⟩,
    ⟨3, "0011 +3", some 11, none, some (.constant (.integer 3)), none, "resume"⟩]

theorem resumes_resumingLines : Resumes {} resumingLines where
  fresh before line after split _ name label := by
    have unlabelled : ∀ line ∈ resumingLines, line.label = none := by decide
    rw [unlabelled line (by simp [split])] at label
    cases label
  inside := by decide
  located before line next after split _ _ := by
    have located : ∀ line ∈ resumingLines, line.location.isSome = true := by decide
    exact located next (by simp [split])

/-- The one clash is on the second line, since the third says where it stands. -/
theorem resumingLines_repeated_locations_reported :
    (Layout.ofLines {} resumingLines).collector.isFull = false ∧ Resumes {} resumingLines ∧
    (clashes {} id resumingLines).map (·.site) = [⟨"resume", 2, 1⟩] ∧
    ClashReports {} resumingLines "resume" :=
  have room : (Layout.ofLines {} resumingLines).collector.isFull = false := by decide +kernel
  ⟨room, resumes_resumingLines, by decide +kernel, repeated_locations_reported room⟩

/-- The same with a line in between that leaves its location to the counter. -/
def driftingLines : List Line :=
  [⟨1, "0010 +1", some 10, none, some (.constant (.integer 1)), none, "drift"⟩,
    ⟨2, "0010 +2", some 10, none, some (.constant (.integer 2)), none, "drift"⟩,
    ⟨3, "+3", none, none, some (.constant (.integer 3)), none, "drift"⟩,
    ⟨4, "0011 +4", some 11, none, some (.constant (.integer 4)), none, "drift"⟩]

/-- By the rule the second and the fourth line are at locations that are taken. The third line is blamed in
place of the fourth. -/
theorem driftingLines_misreported :
    ((parseSource "0010 +1\n0010 +2\n+3\n0011 +4" "drift").value.toOption.map fun p => (p.ok, p.lines)) =
      some (true, driftingLines) ∧
    (Layout.ofLines {} driftingLines).collector.isFull = false ∧
    wordLocations 8 driftingLines = [10, 10, 11, 11] ∧
    (clashes {} id driftingLines).map (·.site) = [⟨"drift", 2, 1⟩, ⟨"drift", 4, 1⟩] ∧
    ((Layout.ofLines {} driftingLines).collector.errors.filter Diagnostic.repeatsLocation).map (·.site) =
      [some ⟨"drift", 2, 1⟩, some ⟨"drift", 3, 1⟩] := by
  decide +kernel

end WordMachine
