import WordMachine.Proofs.Layout.Acceptance

/-!
# What the passes report

While there is room for problems each pass tells apart its cases: in the first one a line is taken by the
layout, or one problem is reported about its label or about its location (`Outcome`); in the second one the
word of a line with a place is encoded, or one problem is reported. Both passes only ever add to the
problems, so a file whose problems stay below the limit had room before each of its lines.
-/
namespace WordMachine

open Source

/-! ## Problems are only added -/

/-- The second collector has the problems of the first, and perhaps more. -/
def Collector.Grew (c d : Collector) : Prop :=
  ∃ more, d = { c with errors := c.errors ++ more }

namespace Collector.Grew

variable {c d e : Collector}

theorem refl (c : Collector) : c.Grew c :=
  ⟨[], by simp⟩

theorem add (c : Collector) (d : Diagnostic) : c.Grew (c.add d) :=
  ⟨[d], rfl⟩

theorem trans (first : c.Grew d) (second : d.Grew e) : c.Grew e := by
  obtain ⟨more, rfl⟩ := first
  obtain ⟨yet, rfl⟩ := second
  exact ⟨more ++ yet, by simp⟩

theorem foldl {σ α : Type} (of : σ → Collector) {step : σ → α → σ}
    (grows : ∀ s a, (of s).Grew (of (step s a))) (s : σ) (xs : List α) :
    (of s).Grew (of (xs.foldl step s)) := by
  induction xs generalizing s with
  | nil => exact refl _
  | cons x rest ih => exact (grows s x).trans (ih (step s x))

/-- There was room for problems before if there is now. -/
theorem room (grew : c.Grew d) (now : d.isFull = false) : c.isFull = false := by
  obtain ⟨more, rfl⟩ := grew
  simp only [isFull, isBroken, isAtLimit, Bool.or_eq_false_iff, List.any_append, Bool.and_eq_false_iff,
    Bool.not_eq_false', List.isEmpty_iff, List.append_eq_nil_iff, List.length_append,
    decide_eq_false_iff_not] at now ⊢
  obtain ⟨⟨intact, -⟩, ⟨none, -⟩ | below⟩ := now
  · exact ⟨intact, Or.inl none⟩
  · exact ⟨intact, Or.inr (by omega)⟩

theorem broken (grew : c.Grew d) (before : c.isBroken = true) : d.isBroken = true := by
  obtain ⟨more, rfl⟩ := grew
  simp only [isBroken, List.any_append, Bool.or_eq_true] at before ⊢
  exact Or.inl before

end Collector.Grew

/-! ## The first pass -/

namespace Layout

def named (l : Layout) (line : Line) : Layout :=
  { l with
    counter := line.here l.counter
    labels := l.labels ++ line.label.toList.map (⟨·, line.here l.counter, line.site 1⟩) }

/-- Why a location has no room for a word. -/
inductive Misplaced (settings : AssemblySettings) (taken : List (Int × Site)) (here : Int) : Cause → Prop
  | outside (outside : ¬ (0 ≤ here ∧ here ≤ settings.memorySize - 1)) :
    Misplaced settings taken here (FieldOverflow.error ⟨"location", here, 0, settings.memorySize - 1⟩).cause
  | occupied {first : Site} (inside : 0 ≤ here ∧ here ≤ settings.memorySize - 1)
      (found : taken.lookup here = some first) :
    Misplaced settings taken here (.duplicateLocation here (some first))

/-- What a line comes to while there is room for problems. -/
inductive Outcome (settings : AssemblySettings) (l : Layout) (line : Line) : Layout → Prop
  | taken (takes : Takes settings l line) : Outcome settings l line (l.after line)
  | clash {name : String} {first : LabelBinding} (label : line.label = some name)
      (bound : l.binding? name = some first) :
    Outcome settings l line
      ({ l with counter := line.here l.counter }.report line (.duplicateLabel name first.site)).passOver
  | misplaced {cause : Cause} (fresh : ∀ name, line.label = some name → l.binding? name = none)
      (emits : line.emits = true) (problem : Misplaced settings l.taken (line.here l.counter) cause) :
    Outcome settings l line ((l.named line).report line cause).passOver

variable {settings : AssemblySettings} {l : Layout} {line : Line} {lines : List Line}

theorem bindLabel_eq_error {cause : Cause} (refused : l.bindLabel line = .error cause) :
    ∃ name first, line.label = some name ∧ l.binding? name = some first ∧
      cause = .duplicateLabel name first.site := by
  unfold bindLabel at refused
  split at refused
  · cases refused
  next name label =>
    split at refused
    next first bound =>
      cases refused
      exact ⟨name, first, label, bound, rfl⟩
    · cases refused

theorem place_eq_error {content : Content} {cause : Cause}
    (refused : l.place settings line content = .error cause) : Misplaced settings l.taken l.counter cause := by
  unfold place checkField at refused
  split at refused
  next inside =>
    simp only [Except.mapError, bind, Except.bind] at refused
    split at refused
    next first found =>
      cases refused
      exact .occupied inside found
    · cases refused
  next outside =>
    simp only [Except.mapError, bind, Except.bind, Except.error.injEq] at refused
    exact refused ▸ .outside outside

/-- While there is room, a line is taken, or it has a label that is bound, or its word has no place. -/
theorem step_outcome (settings : AssemblySettings) (line : Line) (room : l.collector.isFull = false) :
    Outcome settings l line (step settings l line) := by
  by_cases takes : Takes settings l line
  · rw [step_of_takes room takes]
    exact .taken takes
  · unfold step
    rw [if_neg (by simp [room])]
    dsimp only
    rw [← Line.here]
    split
    next cause refused =>
      obtain ⟨name, first, label, bound, rfl⟩ := bindLabel_eq_error refused
      exact .clash label bound
    next bound made =>
      obtain ⟨fresh, rfl⟩ := bindLabel_eq_ok_iff.mp made
      split
      next empty =>
        have silent : ¬ line.emits = true := by simp [Line.emits, empty]
        exact absurd ⟨fresh, fun emits => absurd emits silent, fun emits => absurd emits silent⟩ takes
      next content present =>
        split
        next cause refused =>
          exact .misplaced fresh (by simp [Line.emits, present]) (place_eq_error refused)
        next placed made =>
          obtain ⟨inside, free, -⟩ := place_eq_ok_iff.mp made
          exact absurd ⟨fresh, fun _ => inside, fun _ => free⟩ takes

theorem step_of_full (full : l.collector.isFull = true) : step settings l line = l.passOver := by
  simp [step, full]

theorem grew_step (settings : AssemblySettings) (l : Layout) (line : Line) :
    l.collector.Grew (step settings l line).collector := by
  cases room : l.collector.isFull with
  | true =>
    rw [step_of_full room]
    exact .refl _
  | false =>
    have outcome := step_outcome settings line room
    generalize step settings l line = next at outcome
    cases outcome with
    | taken => exact .refl _
    | clash | misplaced => exact .add _ _

/-- A line gets a place or passes without one. While there is room for problems those with a place are the
lines with a word that the layout takes. -/
theorem places_step (settings : AssemblySettings) (l : Layout) (line : Line) : ∃ place,
    (step settings l line).places = l.places ++ [place] ∧ (l.collector.isFull = false →
      (place.isSome = true ↔ line.emits = true ∧ Takes settings l line)) := by
  cases room : l.collector.isFull with
  | true =>
    rw [step_of_full room]
    exact ⟨none, rfl, nofun⟩
  | false =>
    have outcome := step_outcome settings line room
    generalize step settings l line = next at outcome
    cases outcome with
    | taken takes => exact ⟨_, rfl, fun _ => by simp [takes]⟩
    | @clash name first label bound =>
      refine ⟨none, rfl, fun _ => iff_of_false (by simp) ?_⟩
      rintro ⟨-, takes⟩
      rw [takes.label name label] at bound
      cases bound
    | @misplaced cause fresh emits problem =>
      refine ⟨none, rfl, fun _ => iff_of_false (by simp) ?_⟩
      rintro ⟨-, takes⟩
      cases problem with
      | outside outside => exact outside (takes.inside emits)
      | occupied inside found =>
        rw [takes.free emits] at found
        cases found

theorem binding?_append (l : Layout) (name : String) (line : Line) (here : Int) :
    binding? { l with labels := l.labels ++ line.label.toList.map (⟨·, here, line.site 1⟩) } name = none ↔
      l.binding? name = none ∧ line.label ≠ some name := by
  simp only [binding?, List.find?_append, Option.or_eq_none_iff]
  refine and_congr_right fun _ => ?_
  cases line.label <;> simp

/-- A label is bound by the lines that define it, whatever else is wrong with them. -/
theorem binding?_step_eq_none_iff (room : l.collector.isFull = false) {name : String} :
    (step settings l line).binding? name = none ↔ l.binding? name = none ∧ line.label ≠ some name := by
  have outcome := step_outcome settings line room
  generalize step settings l line = next at outcome
  cases outcome with
  | taken => exact binding?_append l name line _
  | misplaced => exact binding?_append l name line _
  | @clash other first label bound =>
    refine ⟨fun absent => ⟨absent, ?_⟩, And.left⟩
    rintro same
    obtain rfl : other = name := Option.some.inj (label.symm.trans same)
    have unbound : l.binding? other = none := absent
    rw [unbound] at bound
    cases bound

/-! ### All lines -/

theorem grew_foldl (settings : AssemblySettings) (l : Layout) (lines : List Line) :
    l.collector.Grew (lines.foldl (step settings) l).collector :=
  Collector.Grew.foldl (·.collector) (grew_step settings) l lines

/-- While there is room, every label is bound, on whatever line it is. -/
theorem binding?_foldl_eq_none_iff {name : String}
    (room : (lines.foldl (step settings) (start settings)).collector.isFull = false) :
    (lines.foldl (step settings) (start settings)).binding? name = none ↔ name ∉ labelNames lines := by
  induction lines using List.reverseRecOn with
  | nil => simp [start, binding?, labelNames]
  | append_singleton before line ih =>
    rw [List.foldl_append] at room ⊢
    have earlier := (grew_step settings _ line).room room
    rw [List.foldl_cons, List.foldl_nil, binding?_step_eq_none_iff earlier, ih earlier, labelNames_concat]
    simp

/-- Every line has an entry among the places, be it that it has none. -/
theorem length_places (settings : AssemblySettings) (l : Layout) (lines : List Line) :
    (lines.foldl (step settings) l).places.length = l.places.length + lines.length := by
  induction lines generalizing l with
  | nil => rfl
  | cons line rest ih =>
    obtain ⟨place, places, -⟩ := places_step settings l line
    rw [List.foldl_cons, ih, places, List.length_append, List.length_singleton, List.length_cons]
    omega

/-- Whether a line has a place is settled by the lines before it. -/
theorem places_foldl {before after : List Line}
    (room : (before.foldl (step settings) (start settings)).collector.isFull = false) : ∃ place,
    ((before ++ line :: after).foldl (step settings) (start settings)).places[before.length]? = some place ∧
    (place.isSome = true ↔
      line.emits = true ∧ Takes settings (before.foldl (step settings) (start settings)) line) := by
  obtain ⟨place, places, placed⟩ := places_step settings (before.foldl (step settings) (start settings)) line
  refine ⟨place, ?_, placed room⟩
  have kept := prefix_foldl (·.places)
    (fun l line => by
      obtain ⟨_, places, -⟩ := places_step settings l line
      exact places ▸ List.prefix_append _ _)
    (step settings (before.foldl (step settings) (start settings)) line) after
  have length : (before.foldl (step settings) (start settings)).places.length = before.length := by
    simp [length_places, start]
  rw [places] at kept
  obtain ⟨more, whole⟩ := kept
  rw [List.foldl_append, List.foldl_cons, ← whole, List.append_assoc, ← length]
  simp

/-- A word that is below the literal table is passed over, and any other is reported on its line. -/
theorem overlapStep_cases (first : Int) (l : Layout) (entry : Line × Option Int) :
    overlapStep first l entry = l ∨
      ∃ location, overlapStep first l entry = l.report entry.1 (.literalOverlap location first) := by
  unfold overlapStep
  split
  · split
    · exact Or.inr ⟨_, rfl⟩
    · exact Or.inl rfl
  · exact Or.inl rfl

/-- Nothing but the problems of the layout changes when its words meet the literal table. -/
theorem foldl_overlapStep (first : Int) (l : Layout) (entries : List (Line × Option Int)) :
    ∃ more, entries.foldl (overlapStep first) l =
        { l with collector := { l.collector with errors := l.collector.errors ++ more } } ∧
      ∀ d ∈ more, ∃ line location, d = Diagnostic.problem (.literalOverlap location first)
        (some (Line.site line 1)) (some line.text) := by
  induction entries generalizing l with
  | nil => exact ⟨[], by simp, nofun⟩
  | cons entry rest ih =>
    rw [List.foldl_cons]
    rcases overlapStep_cases first l entry with same | ⟨location, same⟩
    · rw [same]
      exact ih l
    · obtain ⟨more, made, overlaps⟩ := ih (l.report entry.1 (.literalOverlap location first))
      rw [same, made]
      refine ⟨.problem (.literalOverlap location first) (some (entry.1.site 1)) (some entry.1.text) :: more,
        by simp [report, Collector.add], fun d member => ?_⟩
      rcases List.mem_cons.mp member with rfl | member
      · exact ⟨entry.1, location, rfl⟩
      · exact overlaps d member

/-- The first pass, with what it reports of the literal table at the end. -/
theorem ofLines_eq (settings : AssemblySettings) (lines : List Line) :
    ∃ first more, ofLines settings lines =
        (let l := lines.foldl (step settings) (start settings)
         { l with collector := { l.collector with errors := l.collector.errors ++ more } }) ∧
      ∀ d ∈ more, ∃ line location, d = Diagnostic.problem (.literalOverlap location first)
        (some (Line.site line 1)) (some line.text) :=
  ⟨_, foldl_overlapStep _ _ _⟩

theorem length_places_ofLines (settings : AssemblySettings) (lines : List Line) :
    (ofLines settings lines).places.length = lines.length := by
  obtain ⟨first, more, same, -⟩ := ofLines_eq settings lines
  rw [same]
  simpa [start] using length_places settings (start settings) lines

end Layout

/-! ## The second pass -/

namespace Encoding

variable {settings : AssemblySettings} {l : Layout} {p : Progress}

/-- What a statement can be refused for: a label that is not bound, an address outside memory, or a field that does
not fit. -/
inductive RefusedFor (settings : AssemblySettings) (l : Layout) (s : Statement) : Cause → Prop
  | undefined {name : String} (similar : List String) (symbol : s.symbol? = some name)
      (unbound : l.binding? name = none) : RefusedFor settings l s (.undefinedLabel name similar)
  | outside {address : Int} {column : Nat} (resolved : resolve settings l s.operand = .ok (address, column))
      (outside : ¬ (0 ≤ address ∧ address ≤ settings.memorySize - 1)) :
    RefusedFor settings l s (FieldOverflow.error ⟨"address", address, 0, settings.memorySize - 1⟩).cause
  | unfit {address : Int} {column : Nat} {e : FieldError}
      (resolved : resolve settings l s.operand = .ok (address, column))
      (inside : 0 ≤ address ∧ address ≤ settings.memorySize - 1)
      (unfit : (draft s address).check = .error e) : RefusedFor settings l s e.cause

theorem refusedFor_of_resolve {s : Statement} {cause : Cause}
    (unresolved : resolve settings l s.operand = .error cause) : RefusedFor settings l s cause := by
  unfold resolve at unresolved
  split at unresolved
  · cases unresolved
  · cases unresolved
  next a operand =>
    obtain ⟨target, index, indirect, column⟩ := a
    dsimp only at unresolved
    split at unresolved
    · cases unresolved
    · split at unresolved
      · cases unresolved
      next name unbound =>
        cases unresolved
        exact .undefined _ (by rw [Statement.symbol?, operand]) unbound

/-- What is said of a statement is one of the three things. -/
theorem refusedFor_of_statement {s : Statement} {cause : Cause} (refused : statement settings l s = .error cause) :
    RefusedFor settings l s cause := by
  rcases bind_eq_error_iff.mp refused with unresolved | ⟨⟨address, column⟩, resolved, refused⟩
  · exact refusedFor_of_resolve unresolved
  · dsimp only at refused
    by_cases inside : 0 ≤ address ∧ address ≤ settings.memorySize - 1
    · rw [checkField_eq_ok_iff.mpr ⟨rfl, inside⟩] at refused
      replace refused : ((draft s address).check.mapError FieldError.cause >>= fun i => pure i.encode) =
        .error cause := refused
      rcases bind_eq_error_iff.mp refused with checked | ⟨i, -, made⟩
      · obtain ⟨e, unfit, rfl⟩ := mapError_eq_error_iff.mp checked
        exact .unfit resolved inside unfit
      · cases made
    · rw [checkField_of_outside inside] at refused
      obtain rfl := Except.error.inj refused
      exact .outside resolved inside

def problem? (settings : AssemblySettings) (l : Layout) (entry : Line × Option Int) : Option Diagnostic :=
  match wordAt? settings l entry.1 entry.2 with
  | some (_, .error d) => some d
  | _ => none

theorem collector_step (room : p.collector.isFull = false) (entry : Line × Option Int) :
    (step settings l p entry).collector =
      { p.collector with errors := p.collector.errors ++ (problem? settings l entry).toList } := by
  unfold step problem?
  dsimp only
  rw [if_neg (by simp [room])]
  split <;> simp_all [Collector.add]

theorem grew_step (settings : AssemblySettings) (l : Layout) (p : Progress) (entry : Line × Option Int) :
    p.collector.Grew (step settings l p entry).collector := by
  cases room : p.collector.isFull with
  | true =>
    rw [show step settings l p entry = p by simp [step, room]]
    exact .refl _
  | false => exact ⟨_, collector_step room entry⟩

theorem grew_ofLines (settings : AssemblySettings) (l : Layout) (lines : List Line) :
    l.collector.Grew (ofLines settings l lines).collector :=
  Collector.Grew.foldl Progress.collector (grew_step settings l) { collector := l.collector }
    (lines.zip l.places)

/-- While there is room the second pass adds the problem of each word, in the order of the lines. -/
theorem errors_foldl_of_room {entries : List (Line × Option Int)}
    (room : (entries.foldl (step settings l) p).collector.isFull = false) :
    (entries.foldl (step settings l) p).collector.errors =
      p.collector.errors ++ entries.filterMap (problem? settings l) := by
  induction entries generalizing p with
  | nil => simp
  | cons entry rest ih =>
    rw [List.foldl_cons] at room ⊢
    have grew := Collector.Grew.foldl (·.collector) (grew_step settings l) (step settings l p entry) rest
    have here := (grew_step settings l p entry).room (grew.room room)
    rw [ih room, collector_step here, List.append_assoc, List.filterMap_cons]
    cases problem? settings l entry <;> rfl

end Encoding

/-! ## Both passes -/

theorem limit_generate (settings : AssemblySettings) (lines : List Line) (file : String) :
    (generate settings lines file).collector.limit = settings.maxErrors := by
  obtain ⟨first, more, made, -⟩ := Layout.ofLines_eq settings lines
  obtain ⟨others, first_pass⟩ := Layout.grew_foldl settings (Layout.start settings) lines
  obtain ⟨rest, second_pass⟩ := Encoding.grew_ofLines settings (Layout.ofLines settings lines) lines
  show (Encoding.ofLines settings (Layout.ofLines settings lines) lines).collector.limit = _
  rw [second_pass, made]
  dsimp only
  rw [first_pass]
  rfl

end WordMachine
