import WordMachine.Proofs.Codec
import WordMachine.Proofs.Layout.Collector
import WordMachine.Proofs.Layout.Plan

/-!
# The first pass

One line either leaves a problem or extends the layout by its label, its location and its literal. Problems
are never dropped, so a file without problems had none after any of its lines, and its layout is the one
that the plan describes.
-/
namespace WordMachine.Layout

open Source

/-! ## One line -/

def after (l : Layout) (line : Line) : Layout :=
  let here := line.here l.counter
  { counter := line.next l.counter
    labels := l.labels ++ line.label.toList.map (⟨·, here, line.site 1⟩)
    places := l.places ++ [if line.emits then some here else none]
    taken := l.taken ++ if line.emits then [(here, line.site 1)] else []
    literals := ((line.content.bind Content.literal?).toList).foldl allocate l.literals
    collector := l.collector }

/-- The label of the line is not bound yet, and the location of its word is inside memory and free. -/
structure Takes (settings : AssemblySettings) (l : Layout) (line : Line) : Prop where
  label : ∀ name, line.label = some name → l.binding? name = none
  inside : line.emits = true → 0 ≤ line.here l.counter ∧ line.here l.counter ≤ settings.memorySize - 1
  free : line.emits = true → l.taken.lookup (line.here l.counter) = none

/-- A label can be bound exactly if it is not bound yet. -/
theorem bindLabel_eq_ok_iff {l bound : Layout} {line : Line} :
    l.bindLabel line = .ok bound ↔ (∀ name, line.label = some name → l.binding? name = none) ∧
      bound = { l with labels := l.labels ++ line.label.toList.map (⟨·, l.counter, line.site 1⟩) } := by
  unfold bindLabel
  cases label : line.label with
  | none =>
    simp only [reduceCtorEq, false_implies, implies_true, true_and, Except.ok.injEq, Option.toList_none,
      List.map_nil, List.append_nil]
    exact eq_comm
  | some name =>
    cases binding : l.binding? name with
    | some first => simp [binding]
    | none => simp [binding, eq_comm]

/-- A word can be placed exactly at a free location inside memory. -/
theorem place_eq_ok_iff {settings : AssemblySettings} {l placed : Layout} {line : Line}
    {content : Content} :
    l.place settings line content = .ok placed ↔
      (0 ≤ l.counter ∧ l.counter ≤ settings.memorySize - 1) ∧ l.taken.lookup l.counter = none ∧
      placed = { l with
        counter := l.counter + 1
        places := l.places ++ [some l.counter]
        taken := l.taken ++ [(l.counter, line.site 1)]
        literals := content.literal?.toList.foldl allocate l.literals } := by
  unfold place
  rw [bind_eq_ok_iff]
  simp only [mapError_eq_ok_iff, checkField_eq_ok_iff]
  constructor
  · rintro ⟨location, ⟨rfl, inside⟩, made⟩
    split at made
    · cases made
    next free =>
      cases made
      refine ⟨inside, free, ?_⟩
      rcases content with ⟨mnemonic, accumulator, _ | address | constant, routine⟩ | constant <;> rfl
  · rintro ⟨inside, free, rfl⟩
    refine ⟨l.counter, ⟨rfl, inside⟩, ?_⟩
    rw [free]
    rcases content with ⟨mnemonic, accumulator, _ | address | constant, routine⟩ | constant <;> rfl

/-- A line that the layout takes extends it. -/
theorem step_of_takes {settings : AssemblySettings} {l : Layout} {line : Line}
    (room : l.collector.isFull = false) (takes : Takes settings l line) :
    step settings l line = l.after line := by
  have bound : bindLabel { l with counter := line.here l.counter } line = .ok _ :=
    bindLabel_eq_ok_iff.mpr ⟨takes.label, rfl⟩
  unfold step
  rw [if_neg (by simp [room])]
  dsimp only
  rw [← Line.here, bound]
  cases content : line.content with
  | none => simp [passOver, after, Line.next, Line.emits, content]
  | some c =>
    have emits : line.emits = true := by simp [Line.emits, content]
    have placed : place settings { l with
        counter := line.here l.counter
        labels := l.labels ++ line.label.toList.map (⟨·, line.here l.counter, line.site 1⟩) } line c =
        .ok _ :=
      place_eq_ok_iff.mpr ⟨takes.inside emits, takes.free emits, rfl⟩
    dsimp only
    rw [placed]
    simp [after, Line.next, emits, content]

/-- Without a problem after the line there was nothing wrong with it. -/
theorem takes_of_clean {settings : AssemblySettings} {l : Layout} {line : Line}
    (before : l.collector.errors = []) (clean : (step settings l line).collector.errors = []) :
    Takes settings l line := by
  have room := Collector.isFull_of_clean before
  unfold step at clean
  rw [if_neg (by simp [room])] at clean
  dsimp only at clean
  split at clean
  next cause _ => simp [passOver, report, Collector.add] at clean
  next bound made =>
    obtain ⟨label, rfl⟩ := bindLabel_eq_ok_iff.mp made
    split at clean
    next empty =>
      have silent : ¬ line.emits = true := by simp [Line.emits, empty]
      exact ⟨label, fun emits => absurd emits silent, fun emits => absurd emits silent⟩
    next content _ =>
      split at clean
      next cause _ => simp [passOver, report, Collector.add] at clean
      next placed made =>
        obtain ⟨inside, free, -⟩ := place_eq_ok_iff.mp made
        exact ⟨label, fun _ => inside, fun _ => free⟩

/-- Problems are kept. -/
theorem errors_step (settings : AssemblySettings) (l : Layout) (line : Line) :
    l.collector.errors <+: (step settings l line).collector.errors := by
  unfold step
  split
  · exact List.prefix_rfl
  · dsimp only
    split
    · exact List.prefix_append _ _
    next bound made =>
      obtain ⟨-, rfl⟩ := bindLabel_eq_ok_iff.mp made
      split
      · exact List.prefix_rfl
      · split
        · exact List.prefix_append _ _
        next placed made =>
          obtain ⟨-, -, rfl⟩ := place_eq_ok_iff.mp made
          exact List.prefix_rfl

/-! ## All lines -/

def ofPlan (settings : AssemblySettings) (lines : List Line) : Layout where
  counter := counterAfter settings.origin lines
  labels := (planned settings.origin lines).flatMap fun (line, here) =>
    line.label.toList.map (⟨·, here, line.site 1⟩)
  places := (planned settings.origin lines).map fun (line, here) => if line.emits then some here else none
  taken := (planned settings.origin lines).flatMap fun (line, here) =>
    if line.emits then [(here, line.site 1)] else []
  literals := (constantOperands lines).foldl allocate []
  collector := { limit := settings.maxErrors }

/-- No label is defined twice, and the words have locations of their own inside memory. -/
structure Placed (settings : AssemblySettings) (lines : List Line) : Prop where
  labels_distinct : (labelNames lines).Nodup
  locations_distinct : (wordLocations settings.origin lines).Nodup
  locations_inside : ∀ here ∈ wordLocations settings.origin lines,
    0 ≤ here ∧ here ≤ settings.memorySize - 1

variable {settings : AssemblySettings} {lines : List Line} {line : Line}

/-- The plan of one more line is the plan extended by it. -/
theorem after_ofPlan : (ofPlan settings lines).after line = ofPlan settings (lines ++ [line]) := by
  simp only [after, ofPlan, planned_concat, counterAfter_concat, constantOperands,
    List.flatMap_append, List.map_append, List.filterMap_append, List.foldl_append]
  simp [List.filterMap_cons, List.flatMap_cons]
  cases line.content.bind Content.literal? <;> rfl

theorem map_name_labels (settings : AssemblySettings) (lines : List Line) :
    (ofPlan settings lines).labels.map (·.name) = labelNames lines := by
  induction lines using List.reverseRecOn with
  | nil => rfl
  | append_singleton before line ih =>
    rw [← after_ofPlan, labelNames_concat, ← ih]
    cases label : line.label <;> simp [after, label]

theorem map_fst_taken :
    (ofPlan settings lines).taken.map Prod.fst = wordLocations settings.origin lines := by
  induction lines using List.reverseRecOn with
  | nil => rfl
  | append_singleton before line ih =>
    rw [← after_ofPlan, wordLocations_concat, ← ih]
    simp only [after, List.map_append]
    split <;> rfl

theorem binding?_ofPlan_eq_none_iff {name : String} :
    (ofPlan settings lines).binding? name = none ↔ name ∉ labelNames lines := by
  rw [← map_name_labels settings]
  simp [binding?]

theorem lookup_taken_eq_none_iff {here : Int} :
    (ofPlan settings lines).taken.lookup here = none ↔ here ∉ wordLocations settings.origin lines := by
  rw [← map_fst_taken, List.lookup_eq_none_iff]
  constructor
  · intro absent member
    obtain ⟨entry, found, rfl⟩ := List.mem_map.mp member
    simpa using absent entry found
  · intro absent entry found
    rw [bne_iff_ne]
    rintro rfl
    exact absent (List.mem_map_of_mem found)

/-- The plan of one line more is placed if the line can be taken after the others. -/
theorem placed_concat_iff : Placed settings (lines ++ [line]) ↔
    Placed settings lines ∧ Takes settings (ofPlan settings lines) line := by
  have here : (ofPlan settings lines).counter = counterAfter settings.origin lines := rfl
  constructor
  · rintro ⟨labels, locations, inside⟩
    rw [labelNames_concat] at labels
    rw [wordLocations_concat] at locations inside
    refine ⟨⟨(List.nodup_append.mp labels).1, (List.nodup_append.mp locations).1,
      fun n member => inside n (List.mem_append_left _ member)⟩, ?_, ?_, ?_⟩
    · intro name label
      rw [binding?_ofPlan_eq_none_iff]
      intro bound
      exact (List.nodup_append.mp labels).2.2 name bound name (by simp [label]) rfl
    · intro emits
      exact inside _ (by simp [emits, here])
    · intro emits
      rw [lookup_taken_eq_none_iff]
      intro taken
      exact (List.nodup_append.mp locations).2.2 _ taken _ (by simp [emits, here]) rfl
  · rintro ⟨⟨labels, locations, inside⟩, label, within, free⟩
    refine ⟨?_, ?_, ?_⟩
    · rw [labelNames_concat, List.nodup_append]
      refine ⟨labels, by cases line.label <;> simp, ?_⟩
      rintro name bound other defined rfl
      exact binding?_ofPlan_eq_none_iff.mp (label name (by simpa using defined)) bound
    · rw [wordLocations_concat, List.nodup_append]
      split
      next emits =>
        refine ⟨locations, by simp, ?_⟩
        rintro place taken other new rfl
        rw [List.mem_singleton.mp new] at taken
        exact lookup_taken_eq_none_iff.mp (free emits) taken
      · simpa using locations
    · intro n member
      rw [wordLocations_concat, List.mem_append] at member
      rcases member with earlier | new
      · exact inside n earlier
      · split at new
        next emits =>
          rw [List.mem_singleton.mp new]
          exact within emits
        · cases new

/-- The first pass of a file without problems makes its plan. -/
theorem foldl_step_of_placed (placed : Placed settings lines) :
    lines.foldl (step settings) (start settings) = ofPlan settings lines := by
  induction lines using List.reverseRecOn with
  | nil => rfl
  | append_singleton before line ih =>
    obtain ⟨earlier, takes⟩ := placed_concat_iff.mp placed
    rw [List.foldl_append, ih earlier, ← after_ofPlan]
    exact step_of_takes rfl takes

/-- A file that leaves no problem is placed. After a first problem the counter, the labels and the
literals may drift from the plan, but the problem stays. -/
theorem placed_of_clean
    (clean : (lines.foldl (step settings) (start settings)).collector.errors = []) :
    Placed settings lines := by
  induction lines using List.reverseRecOn with
  | nil => exact ⟨List.nodup_nil, List.nodup_nil, nofun⟩
  | append_singleton before line ih =>
    rw [List.foldl_append] at clean
    have earlier : (before.foldl (step settings) (start settings)).collector.errors = [] :=
      List.prefix_nil.mp (clean ▸ errors_step settings _ line)
    have placed := ih earlier
    refine placed_concat_iff.mpr ⟨placed, takes_of_clean rfl ?_⟩
    rw [← foldl_step_of_placed placed]
    exact clean

end WordMachine.Layout
