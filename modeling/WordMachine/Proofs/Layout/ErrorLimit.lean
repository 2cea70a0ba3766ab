import WordMachine.Proofs.Layout.Reuse
import WordMachine.Proofs.Layout.Undefined

/-!
# The limit on problems keeps the first ones

Two runs over the same lines, one with a lower limit than the other, are compared step by step (`Cut`). As long as the
run with the higher limit has fewer problems than the lower limit allows, the two differ in nothing but the limit.
From then on the run with the lower limit stands still, while the other one adds problems to those that both have. So
the lower limit keeps the first problems, in both passes and in the check of the literal table between them
(`error_limit_keeps_first`).
-/
namespace WordMachine

open Source

/-- What gathers one diagnostic at most only grows. -/
theorem Collector.Gathers.grew {c d : Collector} (gathers : c.Gathers d) : c.Grew d := by
  cases gathers with
  | refl => exact ⟨[], by simp⟩
  | add _ problem => exact ⟨[problem], rfl⟩

theorem Collector.Grew.length_le {c d : Collector} (grew : c.Grew d) : c.errors.length ≤ d.errors.length := by
  obtain ⟨more, rfl⟩ := grew
  simp

/-! ## Two limits -/

/-- What a run with the given limit has come to, beside a run with a higher one: it has the first problems of the
other, and while these are all they have come to the same but for the limit. -/
structure Cut {σ : Type} (of : σ → Collector) (under : σ → σ) (limit : Nat) (s t : σ) : Prop where
  limit_low : (of s).limit = limit
  limit_high : limit ≤ (of t).limit
  errors : (of s).errors = (of t).errors.take limit
  same : (of t).errors.length < limit → s = under t

/-- The steps of the two runs: one problem at most is added, a run that is full stands still, and with room in both
or in none they do the same. -/
structure Parallel {σ α : Type} (of : σ → Collector) (under : σ → σ) (limit : Nat) (f g : σ → α → σ) : Prop where
  shows : ∀ s, of (under s) = { of s with limit := limit }
  gathers : ∀ s a, (of s).Gathers (of (g s a))
  still : ∀ s a, (of s).isFull = true → of (f s a) = of s
  alike : ∀ s a, (of (under s)).isFull = (of s).isFull → f (under s) a = under (g s a)

namespace Cut

variable {σ α : Type} {of : σ → Collector} {under : σ → σ} {limit : Nat} {s s' t t' : σ} {f g : σ → α → σ}

theorem isFull (cut : Cut of under limit s t) (one : 1 ≤ limit) (reached : limit ≤ (of t).errors.length) :
    (of s).isFull = true := by
  have length : (of s).errors.length = limit := by rw [cut.errors, List.length_take_of_le reached]
  exact Collector.isFull_of_le_length (by omega) (by rw [cut.limit_low, length])

/-- A run that stands still keeps the first problems of one that goes on. -/
theorem stand (cut : Cut of under limit s t) (reached : limit ≤ (of t).errors.length) (still : of s' = of s)
    (grew : (of t).Grew (of t')) : Cut of under limit s' t' := by
  obtain ⟨more, grown⟩ := grew
  refine ⟨still ▸ cut.limit_low, ?_, ?_, fun below => ?_⟩
  · rw [grown]
    exact cut.limit_high
  · rw [still, cut.errors, grown, List.take_append_of_le_length reached]
  · rw [grown, List.length_append] at below
    omega

theorem step (cut : Cut of under limit s t) (parallel : Parallel of under limit f g) (one : 1 ≤ limit) (a : α) :
    Cut of under limit (f s a) (g t a) := by
  have gathered := parallel.gathers t a
  rcases Nat.lt_or_ge (of t).errors.length limit with below | reached
  · have high := cut.limit_high
    have agree : (of (under t)).isFull = (of t).isFull := by
      rw [parallel.shows, Collector.isFull_of_length_lt (Int.ofNat_lt.mpr below),
        Collector.isFull_of_length_lt (lt_of_lt_of_le (Int.ofNat_lt.mpr below) high)]
      rfl
    have next : f s a = under (g t a) := by rw [cut.same below, parallel.alike t a agree]
    have length := gathered.length_le
    obtain ⟨more, grown⟩ := gathered.grew
    refine ⟨by rw [next, parallel.shows], ?_, ?_, fun _ => next⟩
    · rw [grown]
      exact high
    · rw [next, parallel.shows, List.take_of_length_le (by omega)]
  · exact cut.stand reached (parallel.still s a (cut.isFull one reached)) gathered.grew

theorem foldl (cut : Cut of under limit s t) (parallel : Parallel of under limit f g) (one : 1 ≤ limit)
    (xs : List α) : Cut of under limit (xs.foldl f s) (xs.foldl g t) := by
  induction xs generalizing s t with
  | nil => exact cut
  | cons x rest ih => exact ih (cut.step parallel one x)

end Cut

def AssemblySettings.withLimit (settings : AssemblySettings) (limit : Nat) : AssemblySettings :=
  { settings with maxErrors := limit }

/-! ## The first pass -/

namespace Layout

variable {settings : AssemblySettings} {limit higher : Nat} {l : Layout} {line : Line} {lines : List Line}

def limited (limit : Nat) (l : Layout) : Layout :=
  { l with collector := { l.collector with limit } }

theorem gathers_step (settings : AssemblySettings) (l : Layout) (line : Line) :
    l.collector.Gathers (step settings l line).collector := by
  cases room : l.collector.isFull with
  | true =>
    rw [step_of_full room]
    exact .refl
  | false =>
    have outcome := step_outcome settings line room
    generalize step settings l line = next at outcome
    cases outcome with
    | taken => exact .refl
    | clash | misplaced => exact .add room _

theorem gathers_overlapStep (first : Int) (l : Layout) (entry : Line × Option Int) :
    l.collector.Gathers (overlapStep first l entry).collector := by
  unfold overlapStep
  split
  · split
    next reported => exact .add (by simpa using reported.2) _
    · exact .refl
  · exact .refl

theorem bindLabel_limited (limit : Nat) (l : Layout) (line : Line) :
    (l.limited limit).bindLabel line = (l.bindLabel line).map (limited limit) := by
  have table (name : String) : (l.limited limit).binding? name = l.binding? name := rfl
  unfold bindLabel
  cases line.label with
  | none => rfl
  | some name =>
    simp only [table]
    cases l.binding? name <;> rfl

theorem place_limited (settings : AssemblySettings) (limit : Nat) (l : Layout) (line : Line) (content : Content) :
    (l.limited limit).place settings line content = (l.place settings line content).map (limited limit) := by
  have counter : (l.limited limit).counter = l.counter := rfl
  have taken : (l.limited limit).taken = l.taken := rfl
  unfold place
  rw [counter]
  cases checkField "location" l.counter 0 (settings.memorySize - 1) with
  | error => rfl
  | ok location =>
    simp only [Except.mapError, bind, Except.bind, taken]
    cases l.taken.lookup location <;> rfl

/-- With room for problems under both limits or under none, a line is treated the same. -/
theorem step_limited (settings : AssemblySettings) (line : Line)
    (agree : (l.limited limit).collector.isFull = l.collector.isFull) :
    step settings (l.limited limit) line = (step settings l line).limited limit := by
  have moved : { l.limited limit with counter := line.location.elim (l.limited limit).counter Int.ofNat } =
      ({ l with counter := line.location.elim l.counter Int.ofNat } : Layout).limited limit := rfl
  unfold step
  rw [agree]
  split
  · rfl
  simp only [moved, bindLabel_limited]
  cases bindLabel { l with counter := line.location.elim l.counter Int.ofNat } line with
  | error => rfl
  | ok bound =>
    simp only [Except.map]
    cases line.content with
    | none => rfl
    | some content =>
      simp only [place_limited]
      cases bound.place settings line content <;> rfl

theorem overlapStep_limited (first : Int) (entry : Line × Option Int)
    (agree : (l.limited limit).collector.isFull = l.collector.isFull) :
    overlapStep first (l.limited limit) entry = (overlapStep first l entry).limited limit := by
  unfold overlapStep
  simp only [agree]
  split
  · split <;> rfl
  · rfl

/-- The first pass with a lower limit has come to the first problems of the other. -/
theorem cut_lines (settings : AssemblySettings) (one : 1 ≤ limit) (order : limit ≤ higher) (lines : List Line) :
    Cut collector (limited limit) limit
      (lines.foldl (step settings) (start (settings.withLimit limit)))
      (lines.foldl (step settings) (start (settings.withLimit higher))) := by
  have cut : Cut collector (limited limit) limit (start (settings.withLimit limit))
      (start (settings.withLimit higher)) := ⟨rfl, Int.ofNat_le.mpr order, List.take_nil.symm, fun _ => rfl⟩
  refine cut.foldl ⟨fun _ => rfl, gathers_step settings, fun l line full => ?_,
    fun l line => step_limited settings line⟩ one lines
  rw [step_of_full full]
  rfl

theorem cut_ofLines (settings : AssemblySettings) (one : 1 ≤ limit) (order : limit ≤ higher) (lines : List Line) :
    Cut collector (limited limit) limit (ofLines (settings.withLimit limit) lines)
      (ofLines (settings.withLimit higher) lines) := by
  have cut := cut_lines settings one order lines
  change Cut collector (limited limit) limit
    ((lines.foldl (step settings) (start (settings.withLimit limit))).checkOverlap settings lines)
    ((lines.foldl (step settings) (start (settings.withLimit higher))).checkOverlap settings lines)
  generalize lines.foldl (step settings) (start (settings.withLimit limit)) = low at cut
  generalize lines.foldl (step settings) (start (settings.withLimit higher)) = high at cut
  rcases Nat.lt_or_ge high.collector.errors.length limit with below | reached
  · obtain rfl := cut.same below
    -- The same locations are looked at, and the same start of the literal table.
    refine cut.foldl ⟨fun _ => rfl, gathers_overlapStep _, fun l entry full => ?_,
      fun l entry => overlapStep_limited _ entry⟩ one _
    exact congrArg collector (Generator.overlapStep_of_full full _ entry)
  · have full := cut.isFull one reached
    have still : low.checkOverlap settings lines = low := List.foldl_fixed' (Generator.overlapStep_of_full full _) _
    refine cut.stand reached (congrArg collector still) ?_
    exact Collector.Grew.foldl collector (fun l entry => (gathers_overlapStep _ l entry).grew) high _

end Layout

/-! ## The second pass -/

namespace Encoding

variable {settings : AssemblySettings} {limit higher : Nat} {l : Layout}

def Progress.limited (limit : Nat) (p : Progress) : Progress :=
  { p with collector := { p.collector with limit } }

theorem gathers_step (settings : AssemblySettings) (l : Layout) (p : Progress) (entry : Line × Option Int) :
    p.collector.Gathers (step settings l p entry).collector := by
  cases room : p.collector.isFull with
  | true =>
    rw [Generator.encode_of_full room]
    exact .refl
  | false =>
    rw [collector_step room]
    cases problem? settings l entry with
    | none => simpa using Collector.Gathers.refl
    | some d => exact .add room d

theorem resolve_limited (settings : AssemblySettings) (limit higher : Nat) (l : Layout) (operand : Option Operand) :
    resolve (settings.withLimit limit) (l.limited limit) operand = resolve (settings.withLimit higher) l operand := by
  rcases operand with _ | ⟨⟨n | name, index, indirect, column⟩⟩ | ⟨c, column⟩ <;> rfl

/-- A word does not depend on the limit. -/
theorem wordAt?_limited (settings : AssemblySettings) (limit higher : Nat) (l : Layout) (line : Line)
    (place : Option Int) :
    wordAt? (settings.withLimit limit) (l.limited limit) line place =
      wordAt? (settings.withLimit higher) l line place := by
  have same (s : Statement) : statement (settings.withLimit limit) (l.limited limit) s =
      statement (settings.withLimit higher) l s := by
    unfold statement
    rw [resolve_limited settings limit higher]
    rfl
  cases place with
  | none => rfl
  | some location =>
    unfold wordAt?
    rcases line.content with _ | ⟨⟨s⟩ | ⟨c⟩⟩
    · rfl
    · simp only [content, same]
    · rfl

theorem step_limited {p : Progress} (entry : Line × Option Int)
    (agree : (p.limited limit).collector.isFull = p.collector.isFull) :
    step (settings.withLimit limit) (l.limited limit) (p.limited limit) entry =
      (step (settings.withLimit higher) l p entry).limited limit := by
  unfold step
  dsimp only
  rw [agree, wordAt?_limited settings limit higher]
  split
  · rfl
  · split <;> rfl

theorem cut_ofLines (one : 1 ≤ limit) {low high : Layout} (lines : List Line)
    (cut : Cut Layout.collector (Layout.limited limit) limit low high) :
    Cut Progress.collector (Progress.limited limit) limit (ofLines (settings.withLimit limit) low lines)
      (ofLines (settings.withLimit higher) high lines) := by
  rcases Nat.lt_or_ge high.collector.errors.length limit with below | reached
  · obtain rfl := cut.same below
    have began : Cut Progress.collector (Progress.limited limit) limit
        { collector := (high.limited limit).collector } { collector := high.collector } :=
      ⟨cut.limit_low, cut.limit_high, cut.errors, fun _ => rfl⟩
    refine began.foldl ⟨fun _ => rfl, gathers_step _ high, fun p entry full => ?_,
      fun p entry => step_limited entry⟩ one _
    exact congrArg Progress.collector (Generator.encode_of_full full entry)
  · have began : Cut Progress.collector (Progress.limited limit) limit
        { collector := low.collector } { collector := high.collector } :=
      ⟨cut.limit_low, cut.limit_high, cut.errors, fun less => absurd less (not_lt.mpr reached)⟩
    have full := cut.isFull one reached
    refine began.stand reached ?_ (grew_ofLines _ high lines)
    exact congrArg Progress.collector (List.foldl_fixed' (Generator.encode_of_full full) _)

end Encoding

/-! ## Both passes -/

section

variable {settings : AssemblySettings} {limit higher : Nat} {lines : List Line} {file : String}

theorem generate_collector (settings : AssemblySettings) (lines : List Line) (file : String) :
    (generate settings lines file).collector =
      (Encoding.ofLines settings (Layout.ofLines settings lines) lines).collector :=
  rfl

/-- Both passes with a lower limit have come to the first problems of those with a higher one. -/
theorem cut_generate (one : 1 ≤ limit) (order : limit ≤ higher) :
    Cut Encoding.Progress.collector (Encoding.Progress.limited limit) limit
      (Encoding.ofLines (settings.withLimit limit) (Layout.ofLines (settings.withLimit limit) lines) lines)
      (Encoding.ofLines (settings.withLimit higher) (Layout.ofLines (settings.withLimit higher) lines) lines) :=
  Encoding.cut_ofLines one lines (Layout.cut_ofLines settings one order lines)

/-- A limit keeps the first problems that a higher one lets through. -/
theorem errors_eq_take (one : 1 ≤ limit) (order : limit ≤ higher) :
    (generate (settings.withLimit limit) lines file).collector.errors =
      (generate (settings.withLimit higher) lines file).collector.errors.take limit :=
  (cut_generate one order).errors

theorem outcome_of_broken {settings : AssemblySettings}
    (broken : (generate settings lines file).collector.isBroken = true) :
    (generate settings lines file).outcome = .error .unwritable :=
  Collector.verdict_of_broken broken

/-- A limit that is higher than the number of problems changes nothing. -/
theorem outcome_of_below (one : 1 ≤ limit) (order : limit ≤ higher)
    (below : (generate (settings.withLimit higher) lines file).collector.errors.length < limit) :
    (generate (settings.withLimit limit) lines file).outcome =
      (generate (settings.withLimit higher) lines file).outcome := by
  have layouts := Layout.cut_ofLines settings one order lines
  have cut := @cut_generate settings limit higher lines one order
  have early := (Encoding.grew_ofLines (settings.withLimit higher)
    (Layout.ofLines (settings.withLimit higher) lines) lines).length_le
  rw [generate_collector] at below
  have high := cut.limit_high
  unfold generate
  dsimp only
  rw [cut.same below, layouts.same (early.trans_lt below),
    Collector.verdict_of_length_lt (Int.ofNat_lt.mpr below), Collector.verdict_of_length_lt (by omega)]
  rfl

/-- The problems that can be written come first, and there is at most one other. -/
theorem keptFirst_generate (settings : AssemblySettings) (lines : List Line) (file : String) :
    (generate settings lines file).collector.KeptFirst := by
  have none : (Layout.start settings).collector.KeptFirst := Collector.keptFirst_of_clean rfl
  have placed := none.foldl Layout.collector (Layout.gathers_step settings) lines
  have checked : (Layout.ofLines settings lines).collector.KeptFirst :=
    placed.foldl Layout.collector (Layout.gathers_overlapStep _) _
  exact Collector.KeptFirst.foldl Encoding.Progress.collector (Encoding.gathers_step settings _) checked _

/-- A limit that the problems reach keeps the first of them. -/
theorem outcome_of_reached (one : 1 ≤ limit) (order : limit ≤ higher)
    (reached : limit ≤ (generate (settings.withLimit higher) lines file).collector.kept.length) :
    (generate (settings.withLimit limit) lines file).outcome =
      .error (.failed ((generate (settings.withLimit higher) lines file).collector.kept.take limit ++
        [.problem (.limitReached limit) none none])) := by
  have cut := @cut_generate settings limit higher lines one order
  obtain ⟨rest, first⟩ := keptFirst_generate (settings.withLimit higher) lines file
  rw [generate_collector] at reached first ⊢
  have errors := cut.errors
  rw [first, List.take_append_of_le_length reached] at errors
  have intact : ∀ d ∈ (Encoding.ofLines (settings.withLimit limit)
      (Layout.ofLines (settings.withLimit limit) lines) lines).collector.errors, d.isWritable = true := by
    rw [errors]
    exact fun d member => (List.mem_filter.mp (List.mem_of_mem_take member)).2
  have low := cut.limit_low
  have length := List.length_take_of_le reached
  unfold generate
  dsimp only
  rw [Collector.verdict_of_le_length (Collector.isBroken_eq_false_iff.mpr intact) (by omega) (by rw [errors]; omega),
    errors, Collector.stop, low]

/-- A line has at most three problems: with its label or its place, with the literal table, and with its word. -/
theorem length_errors_le (settings : AssemblySettings) (lines : List Line) (file : String) :
    (generate settings lines file).collector.errors.length ≤ 3 * lines.length := by
  have zipped (places : List (Option Int)) : (lines.zip places).length ≤ lines.length := by
    rw [List.length_zip]
    exact Nat.min_le_left _ _
  have placed := Collector.Gathers.length_foldl_le Layout.collector (Layout.gathers_step settings)
    (Layout.start settings) lines
  rw [generate_collector, Encoding.ofLines, Layout.ofLines]
  generalize lines.foldl (Layout.step settings) (Layout.start settings) = l at placed ⊢
  have checked := Collector.Gathers.length_foldl_le Layout.collector
    (Layout.gathers_overlapStep (Layout.slot settings l.literals.length + 1)) l (lines.zip l.places)
  change (l.checkOverlap settings lines).collector.errors.length ≤ _ at checked
  generalize l.checkOverlap settings lines = checkedLayout at checked ⊢
  have encoded := Collector.Gathers.length_foldl_le Encoding.Progress.collector
    (Encoding.gathers_step settings checkedLayout) { collector := checkedLayout.collector }
    (lines.zip checkedLayout.places)
  have first := zipped l.places
  have second := zipped checkedLayout.places
  have none : (Layout.start settings).collector.errors.length = 0 := rfl
  dsimp only at encoded
  omega

end

/-- The problems that are gathered under every limit higher than their number, and what a limit makes of them: one
that they do not reach changes nothing, and one that they reach keeps as many of them and says that there are more. -/
theorem error_limit_keeps_first (settings : AssemblySettings) (lines : List Line) (file : String) :
    ∃ problems : List Diagnostic,
      (∀ enough : Nat, problems.length < enough →
        (generate (settings.withLimit enough) lines file).collector.kept = problems) ∧
      ∀ limit : Nat, 1 ≤ limit →
        (problems.length < limit → ∀ enough : Nat, problems.length < enough →
          (generate (settings.withLimit limit) lines file).outcome =
            (generate (settings.withLimit enough) lines file).outcome) ∧
        (limit ≤ problems.length →
          (generate (settings.withLimit limit) lines file).outcome =
            .error (.failed (problems.take limit ++ [.problem (.limitReached limit) none none]))) := by
  obtain ⟨ample, most⟩ : ∃ ample, 3 * lines.length < ample := ⟨_, Nat.lt_succ_self _⟩
  have bound (n : Nat) : (generate (settings.withLimit n) lines file).collector.errors.length < ample :=
    (length_errors_le (settings.withLimit n) lines file).trans_lt most
  obtain ⟨rest, first⟩ := keptFirst_generate (settings.withLimit ample) lines file
  -- One problem at most is not kept, so a limit higher than the number of those that are lets all be gathered.
  have gathered (enough : Nat)
      (above : (generate (settings.withLimit ample) lines file).collector.kept.length < enough) :
      (generate (settings.withLimit enough) lines file).collector.errors =
        (generate (settings.withLimit ample) lines file).collector.errors := by
    have all : (generate (settings.withLimit ample) lines file).collector.errors.length ≤ enough := by
      rw [first, List.length_append]
      cases rest <;> simp <;> omega
    rcases Nat.le_total enough ample with lower | higher
    · rw [errors_eq_take (by omega) lower, List.take_of_length_le all]
    · rw [@errors_eq_take settings ample enough lines file (by omega) higher, List.take_of_length_le (bound enough).le]
  have kept (enough : Nat)
      (above : (generate (settings.withLimit ample) lines file).collector.kept.length < enough) :
      (generate (settings.withLimit enough) lines file).collector.kept =
        (generate (settings.withLimit ample) lines file).collector.kept :=
    congrArg (List.filter Diagnostic.isWritable) (gathered enough above)
  have broken (enough : Nat)
      (above : (generate (settings.withLimit ample) lines file).collector.kept.length < enough) :
      (generate (settings.withLimit enough) lines file).collector.isBroken =
        (generate (settings.withLimit ample) lines file).collector.isBroken :=
    congrArg (fun errors : List Diagnostic => errors.any (!·.isWritable)) (gathered enough above)
  refine ⟨(generate (settings.withLimit ample) lines file).collector.kept, kept, fun limit one => ⟨?_, ?_⟩⟩
  · intro below enough above
    cases intact : (generate (settings.withLimit ample) lines file).collector.isBroken with
    | true => rw [outcome_of_broken ((broken limit below).trans intact), outcome_of_broken ((broken enough above).trans intact)]
    | false =>
      have whole := Collector.kept_of_intact intact
      rcases Nat.le_total limit enough with lower | higher
      · exact outcome_of_below one lower (by rwa [gathered enough above, ← whole])
      · exact (outcome_of_below (by omega) higher (by rwa [gathered limit below, ← whole])).symm
  · intro reached
    have length : (generate (settings.withLimit ample) lines file).collector.kept.length ≤
        (generate (settings.withLimit ample) lines file).collector.errors.length := List.length_filter_le _ _
    exact outcome_of_reached one (reached.trans (length.trans (bound ample).le)) reached

/-- Of the two problems of a jump to an undefined label and a label that is bound twice, a limit of one keeps the
first that is found. -/
theorem clashingLines_error_limit :
    ∃ problems : List Diagnostic, 1 ≤ problems.length ∧
      (generate (AssemblySettings.withLimit {} 1) clashingLines "clash").outcome =
        .error (.failed (problems.take 1 ++ [.problem (.limitReached 1) none none])) := by
  obtain ⟨problems, gathered, limited⟩ := error_limit_keeps_first {} clashingLines "clash"
  have several : 1 ≤ problems.length := by
    by_contra none
    have two : (generate (AssemblySettings.withLimit {} 3) clashingLines "clash").collector.kept.length = 2 := by
      decide +kernel
    rw [gathered 3 (by omega)] at two
    omega
  exact ⟨problems, several, (limited 1 (by decide)).2 several⟩

end WordMachine
