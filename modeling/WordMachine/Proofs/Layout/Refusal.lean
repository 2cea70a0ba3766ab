import WordMachine.Proofs.Layout.Reports
import WordMachine.Proofs.Source.Numbers

/-!
# How programs are refused

A program that is not well-formed fails with what is wrong with it. The one exception is a number that a message shows
and that is too long to be written. What messages show are locations, and what is at hand when one is reported comes
from the settings, from the lines and from the counter. So there is no exception if origin, memory size, limit and the
numbers of the lines can be written (`Showable`); that much holds after each line (`Layout.Shows`).
-/
namespace WordMachine

open Source

/-- No number that the settings and the lines bring in is too long to be written. -/
structure Showable (settings : AssemblySettings) (lines : List Line) : Prop where
  origin : Text.isWritable settings.origin = true
  size : Text.isWritable settings.memorySize = true
  last : Text.isWritable (settings.memorySize - 1) = true
  limit : Text.isWritable settings.maxErrors = true
  count : Text.isWritable lines.length = true
  lines : ∀ line ∈ lines, Text.isWritable line.number = true

theorem FieldOverflow.isWritable_cause (o : FieldOverflow) : o.error.cause.isWritable = o.isWritable := by
  unfold error
  cases written : o.isWritable with
  | true => exact written
  | false => rfl

/-- What is reported of a line shows its number and what the cause shows. -/
theorem isWritable_problem {line : Line} {cause : Cause} (number : Text.isWritable line.number = true)
    (written : cause.isWritable = true) (column : Nat) :
    (Diagnostic.problem cause (some (line.site column)) (some line.text)).isWritable = true := by
  have site : (line.site column).isWritable = true := number
  simp [Diagnostic.isWritable, written, site]

theorem Collector.intact_add {c : Collector} {d : Diagnostic} (intact : c.isBroken = false)
    (written : d.isWritable = true) : (c.add d).isBroken = false := by
  rw [isBroken_eq_false_iff] at intact ⊢
  intro other member
  rcases List.mem_append.mp member with earlier | last
  · exact intact other earlier
  · rwa [List.mem_singleton.mp last]

variable {settings : AssemblySettings} {lines : List Line} {line : Line} {l : Layout}

/-! ## The first pass -/

namespace Layout

/-- Every number that can come to be shown can be written, and so far every message could. -/
structure Shows (settings : AssemblySettings) (l : Layout) : Prop where
  counter : Text.isWritable l.counter = true
  labels : ∀ b ∈ l.labels, Text.isWritable b.location = true ∧ b.site.isWritable = true
  inside : ∀ here, some here ∈ l.places → 0 ≤ here ∧ here ≤ settings.memorySize - 1
  taken : ∀ entry ∈ l.taken, entry.2.isWritable = true
  literals : l.literals.length ≤ l.places.length
  intact : l.collector.isBroken = false

theorem length_allocate_le (literals : List Constant) (content : Option Content) :
    ((content.bind Content.literal?).toList.foldl allocate literals).length ≤ literals.length + 1 := by
  cases content.bind Content.literal? with
  | none => exact Nat.le_succ _
  | some c =>
    rw [Option.toList_some, List.foldl_cons, List.foldl_nil, allocate]
    split <;> simp

namespace Shows

theorem passOver (shows : l.Shows settings) : l.passOver.Shows settings where
  counter := shows.counter
  labels := shows.labels
  inside here member := by
    rcases List.mem_append.mp member with earlier | last
    · exact shows.inside here earlier
    · cases List.mem_singleton.mp last
  taken := shows.taken
  literals := by
    have length := shows.literals
    simp only [Layout.passOver, List.length_append, List.length_singleton]
    omega
  intact := shows.intact

theorem report (shows : l.Shows settings) {cause : Cause} (number : Text.isWritable line.number = true)
    (written : cause.isWritable = true) : (l.report line cause).Shows settings :=
  { shows with intact := Collector.intact_add shows.intact (isWritable_problem number written 1) }

section

variable (shows : l.Shows settings) (parsed : line.IsParsed) (number : Text.isWritable line.number = true)
include shows parsed

theorem here : Text.isWritable (line.here l.counter) = true := by
  unfold Line.here
  cases location : line.location with
  | none => exact shows.counter
  | some n => exact parsed.isWritable n (by simp [Line.numbers, location])

theorem misplaced (last : Text.isWritable (settings.memorySize - 1) = true) {cause : Cause}
    (problem : Misplaced settings l.taken (line.here l.counter) cause) : cause.isWritable = true := by
  have place := shows.here parsed
  cases problem with
  | outside =>
    simp [FieldOverflow.isWritable_cause, FieldOverflow.isWritable, place, last]
  | @occupied first inside found =>
    obtain ⟨before, others, split, -⟩ := List.lookup_eq_some_iff.mp found
    have site := shows.taken (line.here l.counter, first) (by simp [split])
    simp [Cause.isWritable, place, site]

include number

theorem named_labels : ∀ b ∈ l.labels ++ line.label.toList.map (⟨·, line.here l.counter, line.site 1⟩),
    Text.isWritable b.location = true ∧ b.site.isWritable = true := by
  intro b member
  rcases List.mem_append.mp member with earlier | here
  · exact shows.labels b earlier
  · obtain ⟨name, -, rfl⟩ := List.mem_map.mp here
    exact ⟨shows.here parsed, number⟩

theorem after (size : Text.isWritable settings.memorySize = true) (takes : Takes settings l line) :
    (l.after line).Shows settings where
  counter := by
    show Text.isWritable (if line.emits then line.here l.counter + 1 else line.here l.counter) = true
    split
    next emits =>
      have inside := takes.inside emits
      exact Text.isWritable_of_natAbs_le (by omega) size
    · exact shows.here parsed
  labels := shows.named_labels parsed number
  inside here member := by
    rcases List.mem_append.mp member with earlier | last
    · exact shows.inside here earlier
    · have place := List.mem_singleton.mp last
      split at place
      next emits =>
        cases place
        exact takes.inside emits
      · cases place
  taken entry member := by
    rcases List.mem_append.mp member with earlier | last
    · exact shows.taken entry earlier
    · split at last
      · rw [List.mem_singleton.mp last]
        exact number
      · cases last
  literals := by
    have earlier := shows.literals
    have later := length_allocate_le l.literals line.content
    simp only [Layout.after, List.length_append, List.length_singleton]
    omega
  intact := shows.intact

/-- One line, whatever it comes to. -/
theorem step (size : Text.isWritable settings.memorySize = true)
    (last : Text.isWritable (settings.memorySize - 1) = true) : (l.step settings line).Shows settings := by
  cases room : l.collector.isFull with
  | true =>
    rw [step_of_full room]
    exact shows.passOver
  | false =>
    have moved : ({ l with counter := line.here l.counter } : Layout).Shows settings :=
      { shows with counter := shows.here parsed }
    have outcome := step_outcome settings line room
    generalize Layout.step settings l line = next at outcome
    cases outcome with
    | taken takes => exact shows.after parsed number size takes
    | @clash name first label bound =>
      have member : first ∈ l.labels := List.mem_of_find?_eq_some bound
      refine (moved.report number ?_).passOver
      simpa [Cause.isWritable] using (shows.labels first member).2
    | misplaced fresh emits problem =>
      have named : (l.named line).Shows settings := { moved with labels := shows.named_labels parsed number }
      exact (named.report number (shows.misplaced parsed last problem)).passOver

end

end Shows

/-- A word outside memory cannot be reported if the bound of memory is too long to be written. -/
theorem isBroken_step_of_outside (room : l.collector.isFull = false) (unlabelled : line.label = none)
    (emits : line.emits = true) (outside : ¬ (0 ≤ line.here l.counter ∧ line.here l.counter ≤ settings.memorySize - 1))
    (long : Text.isWritable (settings.memorySize - 1) = false) : (l.step settings line).collector.isBroken = true := by
  have outcome := step_outcome settings line room
  generalize l.step settings line = next at outcome
  cases outcome with
  | taken takes => exact absurd (takes.inside emits) outside
  | clash label => cases unlabelled.symm.trans label
  | misplaced fresh emits problem =>
    cases problem with
    | outside =>
      simp [passOver, report, Collector.add, Collector.isBroken, Diagnostic.isWritable,
        FieldOverflow.isWritable_cause, FieldOverflow.isWritable, long]
    | occupied inside => exact absurd inside outside

/-- Before the first line every number that can be shown comes from the settings. -/
theorem shows_start (showable : Showable settings lines) : (start settings).Shows settings where
  counter := showable.origin
  labels := nofun
  inside := nofun
  taken := nofun
  literals := Nat.le_refl 0
  intact := rfl

section

variable (showable : Showable settings lines) (parsed : ∀ line ∈ lines, line.IsParsed)
include showable parsed

omit parsed in
/-- The literal table starts no further below memory than there are lines. -/
theorem isWritable_below (count : Nat) (few : count ≤ lines.length) (positive : 1 ≤ settings.memorySize) :
    Text.isWritable (settings.memorySize - count) = true := by
  have low : Text.isWritable (-(lines.length : Int)) = true := Text.isWritable_of_natAbs_le (by omega) showable.count
  exact Text.isWritable_of_between (by omega) (by omega) low showable.size

/-- After all lines every number that can be shown can be written. -/
theorem shows_foldl : (lines.foldl (step settings) (start settings)).Shows settings :=
  List.foldlRecOn lines (step settings) (motive := fun l => l.Shows settings) (shows_start showable)
    fun _ shows line member => shows.step (parsed line member) (showable.lines line member) showable.size showable.last

/-- The check for overlapping shows locations of words and of the literal table. -/
theorem shows_ofLines : (ofLines settings lines).Shows settings := by
  have shows := shows_foldl showable parsed
  have length := length_places settings (start settings) lines
  unfold ofLines checkOverlap
  dsimp only
  generalize lines.foldl (step settings) (start settings) = l at shows length
  -- The check only reports, so all that it can show is known after the last line.
  refine List.foldlRecOn (lines.zip l.places) (overlapStep (slot settings l.literals.length + 1))
    (motive := fun m => m.Shows settings) shows fun m earlier entry member => ?_
  obtain ⟨line, place⟩ := entry
  obtain ⟨lineIn, placeIn⟩ := List.of_mem_zip member
  unfold overlapStep
  cases place with
  | none => exact earlier
  | some location =>
    dsimp only
    split
    · have inside := shows.inside location placeIn
      have few := shows.literals
      have none : (start settings).places.length = 0 := rfl
      have here : Text.isWritable location = true :=
        Text.isWritable_of_natAbs_le (by omega) showable.size
      have first : Text.isWritable (slot settings l.literals.length + 1) = true := by
        have below := isWritable_below showable l.literals.length (by omega) (by omega)
        rwa [slot, show settings.memorySize - 1 - (l.literals.length : Int) + 1 = settings.memorySize -
          l.literals.length by omega]
      exact earlier.report (showable.lines line lineIn) (by simp [Cause.isWritable, here, first])
    · exact earlier

end

end Layout

/-! ## The second pass -/

namespace Encoding

section

variable (showable : Showable settings lines) (shows : l.Shows settings) (few : l.literals.length ≤ lines.length)
include showable shows few

/-- An operand names a number of its line, the location of a label, or a slot of the literal table. -/
theorem isWritable_of_resolve (positive : 1 ≤ settings.memorySize) {operand : Option Operand}
    (numbers : ∀ n ∈ operand.elim [] Operand.numbers, Text.isWritable n = true) {address : Int} {column : Nat}
    (resolved : resolve settings l operand = .ok (address, column)) : Text.isWritable address = true := by
  unfold resolve at resolved
  split at resolved
  · cases resolved
    exact Text.isWritable_zero
  next c _ =>
    obtain ⟨rfl, -⟩ := Prod.mk.inj (Except.ok.inj resolved)
    cases found : l.slotOf? settings c with
    | none => exact Text.isWritable_zero
    | some address =>
      obtain ⟨i, index, rfl⟩ := Option.map_eq_some_iff.mp found
      obtain ⟨within, -⟩ := List.findIdx?_eq_some_iff_getElem.mp index
      have below := Layout.isWritable_below showable (i + 1) (by omega) positive
      rwa [Option.getD_some, Layout.slot, show settings.memorySize - 1 - (i : Int) = settings.memorySize -
        (i + 1 : Nat) by omega]
  next a =>
    obtain ⟨target, index, indirect, place⟩ := a
    cases target with
    | location n =>
      obtain ⟨rfl, -⟩ := Prod.mk.inj (Except.ok.inj resolved)
      exact numbers n (by simp [Operand.numbers])
    | label name =>
      dsimp only at resolved
      split at resolved
      next b bound =>
        obtain ⟨rfl, -⟩ := Prod.mk.inj (Except.ok.inj resolved)
        exact (shows.labels b (List.mem_of_find?_eq_some bound)).1
      · cases resolved

omit showable shows few in
/-- The index register of an operand is one of its numbers. -/
theorem mem_numbers_of_index? {s : Statement} {k : Nat} (register : s.index? = some k) :
    (k : Int) ∈ s.operand.elim [] Operand.numbers := by
  unfold Statement.index? at register
  split at register
  next a present =>
    obtain ⟨target, index, indirect, place⟩ := a
    dsimp only at register
    subst register
    rw [present]
    cases target <;> simp [Operand.numbers]
  · cases register

/-- Whatever a statement is refused for, its numbers can be written if those of its line can. -/
theorem isWritable_of_refusedFor (positive : 1 ≤ settings.memorySize) {s : Statement} {cause : Cause}
    (numbers : ∀ n ∈ (Content.statement s).numbers, Text.isWritable n = true)
    (refused : RefusedFor settings l s cause) : cause.isWritable = true := by
  have small (n : Nat) (below : n < 10 ^ 4) : Text.isWritable n = true := Text.isWritable_of_lt below
  have operand : ∀ n ∈ s.operand.elim [] Operand.numbers, Text.isWritable n = true :=
    fun n member => numbers n (List.mem_append_right _ member)
  cases refused with
  | undefined => rfl
  | outside resolved =>
    have named := isWritable_of_resolve showable shows few positive operand resolved
    simp [FieldOverflow.isWritable_cause, FieldOverflow.isWritable, named, showable.last]
  | @unfit address column _ resolved inside unfit =>
    have named := isWritable_of_resolve showable shows few positive operand resolved
    obtain ⟨o, first, rfl⟩ := InstructionDraft.check_eq_error_iff.mp unfit
    rw [FieldOverflow.isWritable_cause, first.isWritable_iff]
    rw [draft_eq] at first
    obtain ⟨whole, low, high⟩ := splitAddress_spec address
    rw [show ((pageSize : Nat) : Int) = 1024 from rfl] at whole
    cases first with
    | accumulator =>
      show Text.isWritable s.effectiveAccumulator = true
      unfold Statement.effectiveAccumulator
      cases written : s.accumulator with
      | none => exact small _ (by decide)
      | some n => exact numbers n (by simp [Content.numbers, written])
    | @index n indexed =>
      obtain ⟨k, register, rfl⟩ := Option.map_eq_some_iff.mp indexed
      exact operand k (mem_numbers_of_index? register)
    | page =>
      -- A page number is nearer to zero than the address it is taken from.
      have smaller : (splitAddress address).1.natAbs ≤ address.natAbs := by omega
      exact Text.isWritable_of_natAbs_le smaller named
    | offset => exact Text.isWritable_of_between low high Text.isWritable_zero (small 1023 (by decide))

/-- What the second pass reports can be written. -/
theorem isWritable_of_problem? (parsed : line.IsParsed) (number : Text.isWritable line.number = true)
    {place : Option Int} (placed : place ∈ l.places) {d : Diagnostic}
    (found : problem? settings l (line, place) = some d) : d.isWritable = true := by
  unfold problem? wordAt? at found
  dsimp only at found
  split at found
  next here refused =>
    cases found
    split at refused
    next location c present =>
      have inside := shows.inside location placed
      obtain ⟨-, refused⟩ := Prod.mk.inj (Option.some.inj refused)
      cases c with
      | constant => cases refused
      | statement s =>
        obtain ⟨cause, stopped, rfl⟩ := mapError_eq_error_iff.mp refused
        have numbers : ∀ n ∈ (Content.statement s).numbers, Text.isWritable n = true :=
          fun n member => parsed.isWritable n (by simp [Line.numbers, present, member])
        exact isWritable_problem number (isWritable_of_refusedFor showable shows few (by omega) numbers
          (refusedFor_of_statement stopped)) _
    · cases refused
  · cases found

end

/-- No message of either pass shows a number that is too long to be written. -/
theorem intact_ofLines (showable : Showable settings lines) (parsed : ∀ line ∈ lines, line.IsParsed) :
    (ofLines settings (Layout.ofLines settings lines) lines).collector.isBroken = false := by
  have shows := Layout.shows_ofLines showable parsed
  have few : (Layout.ofLines settings lines).literals.length ≤ lines.length := by
    have length := shows.literals
    rwa [Layout.length_places_ofLines] at length
  have start : ({ collector := (Layout.ofLines settings lines).collector } : Progress).collector.isBroken = false :=
    shows.intact
  refine List.foldlRecOn _ (step settings (Layout.ofLines settings lines))
    (motive := fun p => p.collector.isBroken = false) start fun p intact entry member => ?_
  obtain ⟨line, place⟩ := entry
  obtain ⟨lineIn, placeIn⟩ := List.of_mem_zip member
  cases room : p.collector.isFull with
  | true => simpa [step, room] using intact
  | false =>
    rw [collector_step room]
    cases found : problem? settings (Layout.ofLines settings lines) (line, place) with
    | none => simpa using intact
    | some d =>
      exact Collector.intact_add intact (isWritable_of_problem? showable shows few (parsed line lineIn)
        (showable.lines line lineIn) placeIn found)

end Encoding

/-! ## Both passes -/

variable {file : String}

/-- The assembler accepts exactly the well-formed programs. Every other fails with something that is wrong with it,
unless a message would show a number that is too long to be written. There is none if the numbers that the settings and
the lines bring in are not. -/
theorem generate_accepts_wellFormed (parsed : ∀ line ∈ lines, line.IsParsed) :
    ((∃ a, (generate settings lines file).outcome = .ok a) ↔ WellFormed settings lines) ∧
    (¬ WellFormed settings lines →
      (∃ errors, (generate settings lines file).outcome = .error (.failed errors) ∧ errors ≠ []) ∨
        (generate settings lines file).outcome = .error .unwritable) ∧
    (Showable settings lines → (generate settings lines file).outcome ≠ .error .unwritable) := by
  have admitted := fun line member => (parsed line member).admitted
  have accepted (formed : WellFormed settings lines) : ∃ a, (generate settings lines file).outcome = .ok a :=
    ⟨_, generate_of_wellFormed admitted formed⟩
  refine ⟨⟨?_, accepted⟩, fun malformed => ?_, fun showable => ?_⟩
  · rintro ⟨a, success⟩
    exact wellFormed_of_clean admitted (clean_of_ok success)
  · exact Collector.verdict_of_problems fun clean =>
      malformed (@wellFormed_of_clean settings lines file admitted clean)
  · have limit : (Encoding.ofLines settings (Layout.ofLines settings lines) lines).collector.limit = settings.maxErrors :=
      limit_generate settings lines file
    refine Collector.verdict_ne_unwritable (Encoding.intact_ofLines showable parsed) ?_
    exact Text.isWritable_of_natAbs_le (by omega) showable.limit

/-- Two lines that count upwards for ever, with a label and a literal. -/
def countingLines : List Line :=
  [⟨1, "LOOP: ADD +1", none, some "LOOP",
      some (.statement ⟨.add, none, some (.constant (.integer 1) 11), none⟩), none, "count"⟩,
    ⟨2, "JUMP LOOP", none, none,
      some (.statement ⟨.jump, none, some (.address ⟨.label "LOOP", none, false, 6⟩), none⟩), none,
      "count"⟩]

set_option maxRecDepth 10000 in
/-- The two words and the literal need eleven locations of memory, the origin being 8. -/
theorem countingLines_wellFormed : (∀ line ∈ countingLines, line.IsParsed) ∧
    WellFormed { memorySize := 11 } countingLines ∧ ¬ WellFormed { memorySize := 10 } countingLines := by
  have parsed : ∀ line ∈ countingLines, line.IsParsed := by
    intro line member
    rcases List.mem_pair.mp member with rfl | rfl
    · exact Line.isParsed_of_parse (show ((Line.parse "LOOP: ADD +1" "count" 1).toOption.bind
        fun w => w.value.toOption) = some _ by decide +kernel)
    · exact Line.isParsed_of_parse (show ((Line.parse "JUMP LOOP" "count" 2).toOption.bind
        fun w => w.value.toOption) = some _ by decide +kernel)
  have accepted : (generate { memorySize := 11 } countingLines "count").outcome.isOk = true := by
    decide +kernel
  have refused : ¬ (generate { memorySize := 10 } countingLines "count").outcome.isOk = true := by
    decide +kernel
  exact ⟨parsed, (generate_accepts_wellFormed parsed).1.mp (isOk_iff.mp accepted),
    fun formed => refused (isOk_iff.mpr ((generate_accepts_wellFormed parsed).1.mpr formed))⟩

/-- A memory whose last location would be below zero, with one digit too many to be written. -/
def sunkenSettings : AssemblySettings where
  memorySize := 1 - Text.overlong

def loneLine : Line :=
  ⟨1, "+1", none, none, some (.constant (.integer 1)), none, "lone"⟩

/-- The word has no location in such a memory, and not even that is said. -/
theorem loneLine_unreported :
    loneLine.IsParsed ∧ ¬ WellFormed sunkenSettings [loneLine] ∧
    (generate sunkenSettings [loneLine] "lone").outcome = .error .unwritable ∧
    ∀ errors, (generate sunkenSettings [loneLine] "lone").outcome ≠ .error (.failed errors) := by
  have parsed : loneLine.IsParsed := Line.isParsed_of_parse (show ((Line.parse "+1" "lone" 1).toOption.bind
    fun w => w.value.toOption) = some _ by decide +kernel)
  have positive : 0 < Text.overlong := Text.lt_overlong (by decide)
  have long : Text.isWritable (sunkenSettings.memorySize - 1) = false := by
    by_contra written
    have high : sunkenSettings.memorySize - 1 = -(Text.overlong : Int) := by
      simp only [sunkenSettings]
      omega
    rw [Bool.not_eq_false, high] at written
    have same : Text.isWritable Text.overlong = true := Text.isWritable_of_natAbs_le (by omega) written
    cases Text.isWritable_overlong.symm.trans same
  have outside : ¬ (0 ≤ (8 : Int) ∧ 8 ≤ sunkenSettings.memorySize - 1) := by
    simp only [sunkenSettings]
    omega
  have first : (Layout.step sunkenSettings (Layout.start sunkenSettings) loneLine).collector.isBroken = true :=
    Layout.isBroken_step_of_outside (Collector.isFull_of_clean rfl) rfl rfl outside long
  have refused : (generate sunkenSettings [loneLine] "lone").outcome = .error .unwritable := by
    -- Nothing is taken back: the report of the one line is among those of both passes.
    refine Collector.verdict_of_broken ((Encoding.grew_ofLines _ _ _).broken ?_)
    obtain ⟨start, more, made, -⟩ := Layout.ofLines_eq sunkenSettings [loneLine]
    rw [made]
    exact Collector.Grew.broken ⟨more, rfl⟩ first
  refine ⟨parsed, fun formed => outside (formed.locations_inside 8 ?_), refused, fun errors failed => ?_⟩
  · exact mem_wordLocations.mpr ⟨loneLine, by simp [planned, loneLine, Line.here, sunkenSettings], rfl⟩
  · cases refused.symm.trans failed

end WordMachine
