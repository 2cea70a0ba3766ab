import WordMachine.Proofs.Assembly.LastSource

/-!
# Where lines stand

The location of a line, said without a counter: the latest location that a line up to this one gives, or the origin
if none gives one, and as many further as there are words since then (`standing`). In every assembly the word of a
line stands there and the label of the line is bound to it, whether or not the line has a word; and no label comes
from two lines.
-/
namespace WordMachine

open Source

/-- The location that the last of the lines to give one gives, and the index of that line; the origin and the first
line if none gives one. -/
def lastGiven (origin : Int) (lines : List Line) : Int × Nat :=
  (lines.zipIdx.reverse.findSome? fun (line, i) => line.location.map fun n => (Int.ofNat n, i)).getD (origin, 0)

/-- Where the line with index `i` stands: from the latest location given up to this line, one location further for
each word from the line that gives it up to this line. -/
def standing (origin : Int) (lines : List Line) (i : Nat) : Int :=
  let (base, first) := lastGiven origin (lines.take (i + 1))
  base + ((lines.take i).drop first).countP (·.emits)

/-- A program puts the word and the label of each line where the line stands, and has no other labels. -/
structure Assembly.Places (a : Assembly) (origin : Int) (lines : List Line) : Prop where
  words : ∀ i line c, lines[i]? = some line → line.content = some c →
    ∃ w, ⟨standing origin lines i, w, line.number⟩ ∈ a.words ∧ a.word? (standing origin lines i) = some w ∧
      a.Holds w c
  labels : ∀ i line name, lines[i]? = some line → line.label = some name →
    a.locationOf? name = some (standing origin lines i)
  once : ∀ name location, (name, location) ∈ a.labels → ∃ i line, lines[i]? = some line ∧
    line.label = some name ∧ location = standing origin lines i ∧
    ∀ j other, lines[j]? = some other → other.label = some name → j = i

/-! ## The counter without counting -/

section

variable {origin : Int} {lines : List Line} {line : Line}

theorem lastGiven_concat (origin : Int) (lines : List Line) (line : Line) :
    lastGiven origin (lines ++ [line]) =
      line.location.elim (lastGiven origin lines) fun n => (Int.ofNat n, lines.length) := by
  rw [lastGiven, List.zipIdx_append, List.zipIdx_singleton, List.reverse_append, List.reverse_singleton,
    List.singleton_append, List.findSome?_cons, Nat.zero_add]
  dsimp only
  cases line.location with
  | none => rfl
  | some n => rfl

theorem lastGiven_le (origin : Int) (lines : List Line) : (lastGiven origin lines).2 ≤ lines.length := by
  induction lines using List.reverseRecOn with
  | nil => exact Nat.le_refl 0
  | append_singleton lines line ih =>
    rw [lastGiven_concat, List.length_append]
    cases line.location with
    | none => exact ih.trans (Nat.le_add_right _ _)
    | some n => exact Nat.le_add_right _ _

/-- The counter after some lines: the latest location given, and the words since then. -/
theorem counterAfter_eq (origin : Int) (lines : List Line) :
    counterAfter origin lines =
      (lastGiven origin lines).1 + (lines.drop (lastGiven origin lines).2).countP (·.emits) := by
  induction lines using List.reverseRecOn with
  | nil => exact (Int.add_zero origin).symm
  | append_singleton lines line ih =>
    have low := lastGiven_le origin lines
    rw [counterAfter_concat, lastGiven_concat, Line.next, Line.here]
    cases line.location with
    | none =>
      have whole : ((lines ++ [line]).drop (lastGiven origin lines).2).countP (·.emits) =
          (lines.drop (lastGiven origin lines).2).countP (·.emits) + if line.emits then 1 else 0 := by
        rw [List.drop_append_of_le_length low, List.countP_append, List.countP_singleton]
      simp only [Option.elim_none, whole, ih]
      split <;> push_cast <;> omega
    | some n =>
      simp only [Option.elim_some, List.drop_left, List.countP_singleton]
      split <;> simp

/-- A line stands where the counter puts it. -/
theorem standing_eq {i : Nat} (here : lines[i]? = some line) :
    standing origin lines i = line.here (counterAfter origin (lines.take i)) := by
  have size : (lines.take i).length = i := by
    obtain ⟨low, -⟩ := List.getElem?_eq_some_iff.mp here
    exact List.length_take_of_le low.le
  rw [standing, List.take_add_one, here, Option.toList_some, lastGiven_concat, Line.here]
  cases line.location with
  | none => exact (counterAfter_eq origin (lines.take i)).symm
  | some n =>
    have none_since : (lines.take i).drop (lines.take i).length = [] := List.drop_length
    simp only [Option.elim_some, none_since]
    exact Int.add_zero _

/-- The plan has each line where it stands. -/
theorem planned_standing {i : Nat} (here : lines[i]? = some line) :
    (planned origin lines)[i]? = some (line, standing origin lines i) := by
  obtain ⟨low, same⟩ := List.getElem?_eq_some_iff.mp here
  have split : lines = lines.take i ++ line :: lines.drop (i + 1) := by
    rw [← same, List.getElem_cons_drop, List.take_append_drop]
  have size : (planned origin (lines.take i)).length = i := by
    rw [← List.length_map Prod.fst, map_fst_planned]
    exact List.length_take_of_le low.le
  conv_lhs => rw [split, planned_append, planned]
  rw [List.getElem?_append_right size.le, size, Nat.sub_self, List.getElem?_cons_zero, standing_eq here]

/-- The plan puts each line where it stands. -/
theorem mem_planned_standing {i : Nat} (here : lines[i]? = some line) :
    (line, standing origin lines i) ∈ planned origin lines :=
  List.mem_of_getElem? (planned_standing here)

/-- What is planned is where some line stands. -/
theorem exists_standing_of_mem_planned {location : Int} (member : (line, location) ∈ planned origin lines) :
    ∃ i, lines[i]? = some line ∧ location = standing origin lines i := by
  obtain ⟨i, here⟩ := List.mem_iff_getElem?.mp member
  have first : lines[i]? = some line := by
    rw [← map_fst_planned origin lines, List.getElem?_map, here, Option.map_some]
  rw [planned_standing first] at here
  cases here
  exact ⟨i, first, rfl⟩

/-- Two lines with one label are one line if no label is defined twice. -/
theorem index_eq_of_label (distinct : (labelNames lines).Nodup) {i j : Nat} {other : Line} {name : String}
    (here : lines[i]? = some line) (there : lines[j]? = some other) (mine : line.label = some name)
    (same : other.label = some name) : i = j := by
  induction lines generalizing i j with
  | nil => cases here
  | cons first rest ih =>
    have absent : first.label = some name →
        ∀ (k : Nat) (l : Line), rest[k]? = some l → l.label ≠ some name := by
      intro defined k l place again
      rw [labelNames, List.filterMap_cons_some defined, List.nodup_cons] at distinct
      exact distinct.1 (List.mem_filterMap.mpr ⟨l, List.mem_of_getElem? place, again⟩)
    have later : (labelNames rest).Nodup := distinct.sublist ((List.sublist_cons_self first rest).filterMap _)
    cases i with
    | zero =>
      cases here
      cases j with
      | zero => rfl
      | succ j => exact absurd same (absent mine j other there)
    | succ i =>
      cases j with
      | zero =>
        cases there
        exact absurd mine (absent same i line here)
      | succ j => exact congrArg Nat.succ (ih later here there)

end

/-! ## Assemblies -/

variable {settings : AssemblySettings} {lines : List Line} {file : String}

/-- The words and the labels of a well-formed program are where their lines stand. -/
theorem places_of_wellFormed (admitted : ∀ line ∈ lines, line.Admitted) (formed : WellFormed settings lines) :
    (assembled settings lines file).Places settings.origin lines where
  words i line c here present := by
    have place : (line, standing settings.origin lines i) ∈ planned settings.origin lines := mem_planned_standing here
    obtain ⟨w, found, holds⟩ := @holds_of_planned settings lines file admitted formed _ _ _ place present
    obtain ⟨v, encoded, same⟩ := @word?_of_planned settings lines file admitted formed _ _ _ place present
    obtain rfl : w = v := Option.some.inj (found.symm.trans same)
    refine ⟨w, ?_, found, holds⟩
    exact mem_words_assembled.mpr ⟨line, _, place, mem_wordsOf.mpr ⟨c, w, present, encoded, rfl⟩⟩
  labels i line name here defined := by
    have place : (line, standing settings.origin lines i) ∈ planned settings.origin lines := mem_planned_standing here
    have bound := Layout.binding?_ofPlan formed.labels_distinct place defined
    simp only [Assembly.locationOf?, assembled, Layout.lookup_labelTable, bound, Option.map_some]
  once name location member := by
    obtain ⟨b, bound, same⟩ := List.mem_map.mp member
    obtain ⟨rfl, rfl⟩ := Prod.mk.inj same
    obtain ⟨line, place, defined⟩ := Layout.mem_labels_ofPlan bound
    obtain ⟨i, here, stands⟩ := exists_standing_of_mem_planned place
    exact ⟨i, line, here, defined, stands, fun j other there again =>
      index_eq_of_label formed.labels_distinct there here again defined⟩

/-- Whatever the origin, the memory size and the limit on problems: when a source is assembled, each of its lines
has its word and its label where the line stands, and no label comes from two lines. -/
theorem assemble_places {asm : Assembler} {source : String} {a : Assembly}
    (success : (asm.assemble source file).value.2 = .ok a) :
    ∃ parsed, (parseSource source file).value = .ok parsed ∧
      parsed.lines.map (·.text) = Text.lines source ∧
      parsed.lines.map (·.number) = (List.range' 1 (Text.lines source).length).map Int.ofNat ∧
      a.Places asm.settings.origin parsed.lines := by
  obtain ⟨parsed, read, whole, made, -⟩ := generate_of_assemble success
  have admitted := fun line member => (isParsed_of_parseSource read line member).admitted
  obtain ⟨formed, rfl⟩ := assembled_of_ok admitted made
  exact ⟨parsed, read, texts_of_parseSource read whole, numbers_of_parseSource read whole,
    places_of_wellFormed admitted formed⟩

/-- A source that moves its counter backwards, with a label on a line of its own and blank lines between. -/
def movingSource : String :=
  "+1\n\nBACK: ; comment\n+2\n20 TOP:\nTAKE BACK\n0011 STOP\nEND:"

set_option maxRecDepth 10000 in
/-- The counter moves to a lower location and back, and nothing is lost. -/
theorem movingSource_places :
    ∃ a, ((Assembler.new { origin := 9 }).assemble movingSource "moving").value.2 = .ok a ∧
      a.labels = [("BACK", 10), ("TOP", 20), ("END", 12)] ∧
      ∃ parsed, (parseSource movingSource "moving").value = .ok parsed ∧
        parsed.lines.map (·.text) = Text.lines movingSource ∧
        parsed.lines.map (·.number) = (List.range' 1 (Text.lines movingSource).length).map Int.ofNat ∧
        a.Places 9 parsed.lines := by
  have accepted : ((Assembler.new { origin := 9 }).assemble movingSource "moving").value.2.toOption.map
      (·.labels) = some [("BACK", 10), ("TOP", 20), ("END", 12)] := by
    decide +kernel
  cases made : ((Assembler.new { origin := 9 }).assemble movingSource "moving").value.2 with
  | error refusal =>
    rw [made] at accepted
    cases accepted
  | ok a =>
    rw [made] at accepted
    exact ⟨a, rfl, Option.some.inj accepted, assemble_places made⟩

end WordMachine
