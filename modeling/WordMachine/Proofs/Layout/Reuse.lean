import WordMachine.Generator
import WordMachine.Proofs.Layout.Reports

/-!
# A generator that is used again

The tables that a generator keeps from file to file say what the layout of a single file says, in another form
(`ofLayout`). Both passes keep them so, line by line, from the moment the tables are emptied: whatever they held
before, and wherever the file before was stopped, a file gets what `WordMachine.generate` makes of it, and so what
it gets from a generator that was not used before.
-/
namespace WordMachine.Generator

open Source

/-! ## Tables -/

theorem putEntry_of_absent {κ α : Type} [BEq κ] [LawfulBEq κ] {key : κ} {table : List (κ × α)}
    (absent : table.lookup key = none) (value : α) : putEntry key value table = table ++ [(key, value)] := by
  have other : table.any (·.1 == key) = false := by
    rw [List.any_eq_false]
    intro e member same
    have differs := List.lookup_eq_none_iff.mp absent e member
    rw [eq_of_beq same, bne_self_eq_false] at differs
    cases differs
  simp [putEntry, other]

def assignedOf (first : Nat) (places : List (Option Int)) : List (Nat × Int) :=
  (places.zipIdx first).filterMap fun (place, index) => place.map (index, ·)

theorem assignedOf_cons (first : Nat) (place : Option Int) (places : List (Option Int)) :
    assignedOf first (place :: places) = (place.map (first, ·)).toList ++ assignedOf (first + 1) places := by
  cases place <;> rfl

theorem assignedOf_concat (places : List (Option Int)) (place : Option Int) :
    assignedOf 0 (places ++ [place]) = assignedOf 0 places ++ (place.map (places.length, ·)).toList := by
  unfold assignedOf
  rw [List.zipIdx_append, List.filterMap_append]
  cases place <;> simp

theorem lookup_assignedOf (first : Nat) (places : List (Option Int)) (index : Nat) :
    (assignedOf first places).lookup (first + index) = places[index]?.join := by
  induction places generalizing first index with
  | nil => rfl
  | cons place places ih =>
    rw [assignedOf_cons]
    cases index with
    | zero =>
      cases place with
      | some location => simp
      | none =>
        have later (offset : Nat) (entries : List (Option Int)) :
            (assignedOf (first + 1 + offset) entries).lookup first = none := by
          induction entries generalizing offset with
          | nil => rfl
          | cons entry entries ih =>
            rw [assignedOf_cons]
            cases entry with
            | none => exact ih (offset + 1)
            | some location =>
              have apart : (first == first + 1 + offset) = false := by
                rw [beq_eq_false_iff_ne]
                omega
              rw [Option.map_some, Option.toList_some, List.singleton_append, List.lookup_cons, apart]
              exact ih (offset + 1)
        exact later 0 places
    | succ index =>
      have apart : (first + (index + 1) == first) = false := by
        rw [beq_eq_false_iff_ne]
        omega
      have rest := ih (first + 1) index
      rw [Nat.add_right_comm, Nat.add_assoc] at rest
      cases place with
      | none => exact rest
      | some location =>
        rw [Option.map_some, Option.toList_some, List.singleton_append, List.lookup_cons, apart]
        exact rest

theorem find?_slots (p : Constant → Bool) (slot : Nat → Int) (literals : List Constant) :
    ((literals.mapIdx fun i c => (c, slot i)).find? (p ·.1)).map (·.2) = (literals.findIdx? p).map slot := by
  induction literals generalizing slot with
  | nil => rfl
  | cons c rest ih =>
    rw [List.mapIdx_cons, List.find?_cons, List.findIdx?_cons]
    cases p c with
    | true => rfl
    | false =>
      have later := ih fun i => slot (i + 1)
      simpa [Option.map_map, Function.comp_def] using later

/-! ## The tables of a layout -/

def ofLayout (settings : AssemblySettings) (l : Layout) : Generator where
  settings
  collector := l.collector
  labels := l.labelTable
  labelSites := l.labels.map fun b => (b.name, b.site)
  assigned := assignedOf 0 l.places
  locationSites := l.taken
  slots := l.literals.mapIdx fun i c => (c, Layout.slot settings i)
  literalWords := l.literals.mapIdx fun i c => (Layout.slot settings i, c.stored)
  nextLiteral := Layout.slot settings l.literals.length

variable {settings : AssemblySettings} {l : Layout} {line : Line}

/-- After a reset the tables are those of a start, whatever they were before. -/
theorem reset_eq (g : Generator) : g.reset = ofLayout g.settings (Layout.start g.settings) := by
  simp [reset, ofLayout, Layout.start, Layout.labelTable, assignedOf, Layout.slot]

theorem ofLayout_passOver (settings : AssemblySettings) (l : Layout) :
    ofLayout settings l.passOver = ofLayout settings l := by
  simp [ofLayout, Layout.passOver, Layout.labelTable, assignedOf_concat]

theorem defineLabel_ofLayout (settings : AssemblySettings) (l : Layout) (line : Line) :
    (ofLayout settings l).defineLabel line l.counter = (l.bindLabel line).map (ofLayout settings) := by
  unfold defineLabel Layout.bindLabel
  cases line.label with
  | none => rfl
  | some name =>
    have location := Layout.lookup_labels l.labels LabelBinding.location name
    have site := Layout.lookup_labels l.labels LabelBinding.site name
    change l.labelTable.lookup name = (l.binding? name).map _ at location
    change (ofLayout settings l).labelSites.lookup name = (l.binding? name).map _ at site
    have table : (ofLayout settings l).labels = l.labelTable := rfl
    simp only [table, location, site]
    cases bound : l.binding? name with
    | some first => rfl
    | none =>
      rw [bound] at location site
      have labels := putEntry_of_absent location l.counter
      have sites := putEntry_of_absent site (line.site 1)
      simp only [Layout.labelTable, ofLayout] at labels sites
      simp [Except.map, ofLayout, Layout.labelTable, labels, sites]

theorem slotOf?_ofLayout (settings : AssemblySettings) (l : Layout) (c : Constant) :
    (ofLayout settings l).slotOf? c = l.slotOf? settings c :=
  find?_slots _ _ _

theorem allocate_ofLayout (settings : AssemblySettings) (l : Layout) (c : Constant) :
    (ofLayout settings l).allocate c =
      ofLayout settings { l with literals := Layout.allocate l.literals c } := by
  unfold allocate Layout.allocate
  have present : ((ofLayout settings l).slotOf? c).isSome = l.literals.any (c.same ·) := by
    rw [slotOf?_ofLayout, Layout.slotOf?, Option.isSome_map, List.findIdx?_isSome]
  rw [present]
  split
  · rfl
  · simp [ofLayout, Layout.labelTable, List.mapIdx_append, Layout.slot]
    omega

theorem allocateFor_ofLayout (settings : AssemblySettings) (l : Layout) (content : Content) :
    (ofLayout settings l).allocateFor content =
      ofLayout settings { l with literals := content.literal?.toList.foldl Layout.allocate l.literals } := by
  rcases content with ⟨mnemonic, accumulator, _ | address | ⟨c, column⟩, routine⟩ | constant
  case statement.some.constant => exact allocate_ofLayout settings l c
  all_goals rfl

theorem assign_ofLayout (settings : AssemblySettings) (l : Layout) (line : Line) (content : Content) :
    ((ofLayout settings l).assign l.places.length line l.counter).map (·.allocateFor content) =
      (l.place settings line content).map (ofLayout settings) := by
  cases checked : checkField "location" l.counter 0 (settings.memorySize - 1) with
  | error unfit =>
    have outside : (ofLayout settings l).assign l.places.length line l.counter = .error unfit.cause :=
      bind_eq_error_iff.mpr (Or.inl (mapError_eq_error_iff.mpr ⟨unfit, checked, rfl⟩))
    have refused : l.place settings line content = .error unfit.cause :=
      bind_eq_error_iff.mpr (Or.inl (mapError_eq_error_iff.mpr ⟨unfit, checked, rfl⟩))
    rw [outside, refused]
    rfl
  | ok here =>
    obtain ⟨rfl, inside⟩ := checkField_eq_ok_iff.mp checked
    have located : (checkField "location" l.counter 0 (settings.memorySize - 1)).mapError FieldError.cause =
        .ok l.counter := mapError_eq_ok_iff.mpr checked
    cases free : l.taken.lookup l.counter with
    | some first =>
      have occupied : (ofLayout settings l).assign l.places.length line l.counter =
          .error (.duplicateLocation l.counter (some first)) :=
        bind_eq_error_iff.mpr (Or.inr ⟨l.counter, located, by simp [ofLayout, free, throw, throwThe, MonadExceptOf.throw]⟩)
      have refused : l.place settings line content = .error (.duplicateLocation l.counter (some first)) :=
        bind_eq_error_iff.mpr (Or.inr ⟨l.counter, located, by simp [free, throw, throwThe, MonadExceptOf.throw]⟩)
      rw [occupied, refused]
      rfl
    | none =>
      have next : (assignedOf 0 l.places).lookup l.places.length = none := by
        simpa using lookup_assignedOf 0 l.places l.places.length
      have assigned : (ofLayout settings l).assign l.places.length line l.counter = .ok (ofLayout settings
          { l with
            counter := l.counter + 1
            places := l.places ++ [some l.counter]
            taken := l.taken ++ [(l.counter, line.site 1)] }) := by
        refine bind_eq_ok_iff.mpr ⟨l.counter, located, ?_⟩
        simp [ofLayout, free, pure, Except.pure, putEntry_of_absent next, putEntry_of_absent free,
          assignedOf_concat, Layout.labelTable]
      have placed : l.place settings line content = .ok _ := Layout.place_eq_ok_iff.mpr ⟨inside, free, rfl⟩
      rw [assigned, placed]
      exact congrArg Except.ok (allocateFor_ofLayout settings _ content)

/-! ## The first pass -/

theorem placeWord_ofLayout (settings : AssemblySettings) (l : Layout) (line : Line) (content : Content) :
    (match (ofLayout settings l).assign l.places.length line l.counter with
      | .error cause => ((ofLayout settings l).report line cause, l.counter)
      | .ok g => (g.allocateFor content, l.counter + 1)) =
    (let next := match l.place settings line content with
      | .error cause => (l.report line cause).passOver
      | .ok next => next
     (ofLayout settings next, next.counter)) := by
  have assigned := assign_ofLayout settings l line content
  cases placed : l.place settings line content with
  | error cause =>
    rw [placed] at assigned
    cases refused : (ofLayout settings l).assign l.places.length line l.counter with
    | ok g => simp [refused, Except.map] at assigned
    | error other =>
      obtain rfl : other = cause := by simpa [refused, Except.map] using assigned
      dsimp only
      rw [ofLayout_passOver]
      rfl
  | ok next =>
    rw [placed] at assigned
    cases accepted : (ofLayout settings l).assign l.places.length line l.counter with
    | error cause => simp [accepted, Except.map] at assigned
    | ok g =>
      have tables : g.allocateFor content = ofLayout settings next := by
        simpa [accepted, Except.map] using assigned
      obtain ⟨-, -, rfl⟩ := Layout.place_eq_ok_iff.mp placed
      dsimp only
      rw [tables]

/-- One line keeps the tables in step with the layout. -/
theorem placeLine_ofLayout (settings : AssemblySettings) (room : l.collector.isFull = false) (line : Line) :
    (ofLayout settings l).placeLine l.places.length (line.here l.counter) line =
      (ofLayout settings (l.step settings line), (l.step settings line).counter) := by
  have labelled := defineLabel_ofLayout settings { l with counter := line.here l.counter } line
  change (ofLayout settings l).defineLabel line (line.here l.counter) = _ at labelled
  unfold placeLine Layout.step
  rw [labelled, if_neg (by simp [room])]
  dsimp only
  rw [← Line.here]
  cases made : Layout.bindLabel { l with counter := line.here l.counter } line with
  | error cause =>
    simp only [Except.map]
    rw [ofLayout_passOver]
    rfl
  | ok bound =>
    obtain ⟨-, same⟩ := Layout.bindLabel_eq_ok_iff.mp made
    have counter : line.here l.counter = bound.counter := by rw [same]
    have places : l.places = bound.places := by rw [same]
    simp only [Except.map]
    cases line.content with
    | none =>
      rw [ofLayout_passOver, counter]
      rfl
    | some content =>
      rw [counter, places]
      exact placeWord_ofLayout settings bound line content

/-- Lines that come after the limit change no table. -/
theorem ofLayout_foldl_of_full (full : l.collector.isFull = true) (lines : List Line) :
    ofLayout settings (lines.foldl (Layout.step settings) l) = ofLayout settings l := by
  induction lines generalizing l with
  | nil => rfl
  | cons line rest ih =>
    rw [List.foldl_cons, Layout.step_of_full full, ih (l := l.passOver) full, ofLayout_passOver]

/-- The first pass over the tables is the one over the layout. -/
theorem placeLines_ofLayout (settings : AssemblySettings) (room : l.collector.isFull = false) (lines : List Line) :
    (ofLayout settings l).placeLines l.places.length l.counter lines =
      ofLayout settings (lines.foldl (Layout.step settings) l) := by
  induction lines generalizing l with
  | nil => rfl
  | cons line rest ih =>
    have here := placeLine_ofLayout settings room line
    obtain ⟨place, places, -⟩ := Layout.places_step settings l line
    have length : l.places.length + 1 = (l.step settings line).places.length := by simp [places]
    unfold placeLines
    rw [← Line.here, here, List.foldl_cons, length]
    dsimp only
    split
    next full => exact (ofLayout_foldl_of_full full rest).symm
    next further => exact ih (Bool.not_eq_true _ ▸ further)

theorem reportOverlap_ofLayout {lines : List Line} {index : Nat} (found : lines[index]? = some line)
    (settings : AssemblySettings) (l : Layout) (location : Int) :
    reportOverlap lines (ofLayout settings l) (index, location) =
      ofLayout settings (l.overlapStep (Layout.slot settings l.literals.length + 1) (line, some location)) := by
  have next : (ofLayout settings l).nextLiteral = Layout.slot settings l.literals.length := rfl
  have collector : (ofLayout settings l).collector = l.collector := rfl
  unfold reportOverlap Layout.overlapStep
  simp only [found, next, collector]
  cases full : l.collector.isFull with
  | true => simp
  | false =>
    by_cases low : location ≤ Layout.slot settings l.literals.length
    · rw [if_pos (Or.inr low), if_neg (by omega)]
    · rw [if_neg (by simp [low]), if_pos (by simp; omega)]
      rfl

/-- The lines that the literal table leaves no room for are reported in the order of the lines. -/
theorem foldl_reportOverlap (settings : AssemblySettings) (l : Layout) (before lines : List Line)
    (places : List (Option Int)) (length : places.length = lines.length) :
    (assignedOf before.length places).foldl (reportOverlap (before ++ lines)) (ofLayout settings l) =
      ofLayout settings
        ((lines.zip places).foldl (Layout.overlapStep (Layout.slot settings l.literals.length + 1)) l) := by
  induction lines generalizing before places l with
  | nil =>
    obtain rfl := List.length_eq_zero_iff.mp length
    rfl
  | cons line rest ih =>
    obtain _ | ⟨place, places⟩ := places
    · cases length
    · have later (m : Layout) := ih m (before ++ [line]) places (Nat.succ.inj length)
      simp only [List.append_assoc, List.singleton_append, List.length_append, List.length_singleton] at later
      rw [assignedOf_cons, List.zip_cons_cons, List.foldl_cons, List.foldl_append]
      cases place with
      | none => exact later l
      | some location =>
        have found : (before ++ line :: rest)[before.length]? = some line := by simp
        have literals : (l.overlapStep (Layout.slot settings l.literals.length + 1)
            (line, some location)).literals = l.literals := by
          unfold Layout.overlapStep
          dsimp only
          split <;> rfl
        rw [Option.map_some, Option.toList_some, List.foldl_cons, List.foldl_nil,
          reportOverlap_ofLayout found, later, literals]

theorem overlapStep_of_full (full : l.collector.isFull = true) (first : Int) (entry : Line × Option Int) :
    l.overlapStep first entry = l := by
  unfold Layout.overlapStep
  split
  · rw [if_neg (by simp [full])]
  · rfl

/-- The first pass from empty tables is the layout of the lines. -/
theorem firstPass_reset (g : Generator) (lines : List Line) :
    g.reset.firstPass lines = ofLayout g.settings (Layout.ofLines g.settings lines) := by
  have placed := placeLines_ofLayout g.settings (l := Layout.start g.settings) rfl lines
  have length := Layout.length_places g.settings (Layout.start g.settings) lines
  unfold firstPass Layout.ofLines
  rw [reset_eq]
  change (ofLayout g.settings (Layout.start g.settings)).placeLines 0 g.settings.origin lines = _ at placed
  generalize lines.foldl (Layout.step g.settings) (Layout.start g.settings) = l at placed length
  have settings : (ofLayout g.settings (Layout.start g.settings)).settings = g.settings := rfl
  have overlap := foldl_reportOverlap g.settings l [] lines l.places (by simpa [Layout.start] using length)
  dsimp only
  rw [settings, placed]
  split
  next full =>
    exact congrArg (ofLayout g.settings) (List.foldl_fixed' (overlapStep_of_full full _) _).symm
  next room => exact overlap

/-! ## The second pass -/

def ofProgress (settings : AssemblySettings) (l : Layout) (collector : Collector) : Generator :=
  { ofLayout settings l with collector }

variable {collector : Collector}

theorem resolve_ofProgress (settings : AssemblySettings) (l : Layout) (collector : Collector)
    (operand : Option Operand) :
    (ofProgress settings l collector).resolve operand = (·.1) <$> Encoding.resolve settings l operand := by
  rcases operand with _ | ⟨⟨name | n, index, indirect, column⟩⟩ | ⟨c, column⟩
  · rfl
  · have location : l.labelTable.lookup name = (l.binding? name).map (·.location) :=
      Layout.lookup_labelTable l name
    have labels : (ofProgress settings l collector).labels = l.labelTable := rfl
    have names : l.labelTable.map (·.1) = l.labels.map (·.name) := by simp [Layout.labelTable]
    unfold resolve Encoding.resolve
    simp only [labels, location, names]
    cases l.binding? name <;> rfl
  · rfl
  · have slot : (ofProgress settings l collector).slotOf? c = l.slotOf? settings c := slotOf?_ofLayout settings l c
    simp only [resolve, Encoding.resolve, slot]
    rfl

theorem statement_ofProgress (settings : AssemblySettings) (l : Layout) (collector : Collector) (s : Statement) :
    (ofProgress settings l collector).statement s = Encoding.statement settings l s := by
  unfold statement Encoding.statement
  rw [resolve_ofProgress]
  cases Encoding.resolve settings l s.operand <;> rfl

theorem wordAt?_ofProgress (settings : AssemblySettings) (l : Layout) (collector : Collector) (index : Nat)
    (line : Line) : (ofProgress settings l collector).wordAt? index line =
      Encoding.wordAt? settings l line (l.places[index]?.join) := by
  have place : (ofProgress settings l collector).assigned.lookup index = l.places[index]?.join := by
    have found := lookup_assignedOf 0 l.places index
    rw [Nat.zero_add] at found
    exact found
  have encoded (content : Content) : (ofProgress settings l collector).encode line content =
      Encoding.content settings l line content := by
    cases content with
    | constant c => rfl
    | statement s => exact congrArg (Except.mapError _) (statement_ofProgress settings l collector s)
  unfold wordAt? Encoding.wordAt?
  rw [place]
  cases l.places[index]?.join with
  | none => rfl
  | some location =>
    cases line.content with
    | none => rfl
    | some content => exact congrArg (fun word => some (location, word)) (encoded content)

theorem encodeLine_ofProgress (settings : AssemblySettings) {p : Encoding.Progress}
    (room : p.collector.isFull = false) {index : Nat} {place : Option Int} (found : l.places[index]? = some place)
    (line : Line) :
    (ofProgress settings l p.collector).encodeLine index p.words p.listing line =
      (let q := Encoding.step settings l p (line, place)
       (ofProgress settings l q.collector, q.words, q.listing)) := by
  have word := wordAt?_ofProgress settings l p.collector index line
  rw [found, Option.join_some] at word
  unfold encodeLine Encoding.step
  rw [word]
  dsimp only
  rw [if_neg (by simp [room])]
  rcases Encoding.wordAt? settings l line place with _ | ⟨location, d | word⟩ <;> rfl

theorem encode_of_full {p : Encoding.Progress} (full : p.collector.isFull = true) (entry : Line × Option Int) :
    Encoding.step settings l p entry = p := by
  simp [Encoding.step, full]

/-- The second pass over the tables is the one over the layout. -/
theorem secondPass_ofProgress (settings : AssemblySettings) {p : Encoding.Progress}
    (room : p.collector.isFull = false) {lines : List Line} {before places : List (Option Int)}
    (split : l.places = before ++ places) (length : places.length = lines.length) :
    (ofProgress settings l p.collector).secondPass before.length p.words p.listing lines =
      (let q := (lines.zip places).foldl (Encoding.step settings l) p
       (ofProgress settings l q.collector, q.words, q.listing)) := by
  induction lines generalizing p before places with
  | nil =>
    obtain rfl := List.length_eq_zero_iff.mp length
    rfl
  | cons line rest ih =>
    obtain _ | ⟨place, places⟩ := places
    · cases length
    · have found : l.places[before.length]? = some place := by simp [split]
      have here := encodeLine_ofProgress settings room found line
      unfold secondPass
      rw [here, List.zip_cons_cons, List.foldl_cons]
      dsimp only
      generalize Encoding.step settings l p (line, place) = q
      split
      next full => rw [List.foldl_fixed' (encode_of_full full)]
      next further =>
        have next : l.places = (before ++ [place]) ++ places := by simpa using split
        have later := ih (p := q) (Bool.not_eq_true _ ▸ further) next (Nat.succ.inj length)
        rwa [List.length_append] at later

/-! ## Files -/

/-- A file gets from a generator what it gets on its own, whatever is in the tables. -/
theorem generate_eq (g : Generator) (lines : List Line) (file : String) :
    g.generate lines file =
      (let alone := WordMachine.generate g.settings lines file
       (ofProgress g.settings (Layout.ofLines g.settings lines) alone.collector, alone.outcome)) := by
  have length := Layout.length_places_ofLines g.settings lines
  unfold generate WordMachine.generate Encoding.ofLines
  rw [firstPass_reset]
  generalize Layout.ofLines g.settings lines = l at length
  have tables : ofLayout g.settings l = ofProgress g.settings l l.collector := rfl
  dsimp only
  rw [tables]
  cases full : l.collector.isFull with
  | true =>
    have stopped : (ofProgress g.settings l l.collector).collector.isFull = true := full
    rw [List.foldl_fixed' (encode_of_full full), if_pos stopped]
    exact Prod.ext rfl (Collector.verdict_of_full full)
  | false =>
    have room : ¬ (ofProgress g.settings l l.collector).collector.isFull = true := by simp [ofProgress, full]
    have whole : l.places = [] ++ l.places := rfl
    have passed := secondPass_ofProgress g.settings (p := { collector := l.collector }) full whole length
    rw [if_neg room]
    change secondPass _ 0 [] [] lines = _ at passed
    rw [passed]
    rfl

theorem settings_generate (g : Generator) (lines : List Line) (file : String) :
    (g.generate lines file).1.settings = g.settings := by
  rw [generate_eq]
  rfl

theorem settings_session (g : Generator) (calls : List Call) : (g.session calls).1.settings = g.settings := by
  induction calls generalizing g with
  | nil => rfl
  | cons c calls ih => exact (ih _).trans (settings_generate g c.lines c.file)

/-- In a session every file gets what it gets on its own. -/
theorem session_outcomes (g : Generator) (calls : List Call) :
    (g.session calls).2 = calls.map fun c => (WordMachine.generate g.settings c.lines c.file).outcome := by
  induction calls generalizing g with
  | nil => rfl
  | cons c calls ih =>
    have first : (g.generate c.lines c.file).2 = (WordMachine.generate g.settings c.lines c.file).outcome := by
      rw [generate_eq]
    have rest := ih (g.generate c.lines c.file).1
    rw [settings_generate] at rest
    exact congrArg₂ List.cons first rest

/-- All that can be seen of a call: the assembly or the failure, and what the generator says afterwards. -/
structure Answer where
  outcome : Except GenerationError Assembly
  hasErrors : Bool
  errorReport : String
  labels : List (String × Int)

def answer (g : Generator) (c : Call) : Answer :=
  let (after, outcome) := g.generate c.lines c.file
  ⟨outcome, after.hasErrors, after.errorReport, after.labels⟩

/-- What is seen of a call is what the file alone gives. -/
theorem answer_eq (g : Generator) (c : Call) :
    g.answer c =
      (let alone := WordMachine.generate g.settings c.lines c.file
       ⟨alone.outcome, alone.collector.hasErrors, alone.collector.report, alone.labels⟩) := by
  unfold answer
  rw [generate_eq]
  rfl

/-- After any files, a generator answers to the next one as a new generator does, and adds its answer to those it
has given. That these stay as they were rests on the copies: no answer holds a table of the generator. -/
theorem reused_as_new (settings : AssemblySettings) (earlier : List Call) (c : Call) :
    ((new settings).session earlier).1.answer c = (new settings).answer c ∧
      ((new settings).session (earlier ++ [c])).2 =
        ((new settings).session earlier).2 ++ [((new settings).answer c).outcome] := by
  constructor
  · rw [answer_eq, answer_eq, settings_session]
  · rw [session_outcomes, session_outcomes, List.map_append, answer_eq]
    rfl

end WordMachine.Generator
