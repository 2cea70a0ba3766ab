import WordMachine.Machine.Trace
import WordMachine.Proofs.Charset.Codes
import WordMachine.Proofs.Results
import WordMachine.Proofs.Text.Shown

/-!
# What a trace shows

A word can be shown if it is an instruction or a number, or a text in which each code stands for a character
(`Word.Legible`). A trace can be shown exactly when each accumulator that an instruction changed can, as it
was and as it is, and then it has one line for each record, in the order of the records.
-/
namespace WordMachine

/-- Each code of a text stands for a character. -/
def Word.Legible (w : Word) : Prop :=
  w.tag = .text → ∀ code ∈ Charset.codes w.bits, (Charset.char? code).isSome = true

instance (w : Word) : Decidable w.Legible :=
  inferInstanceAs (Decidable (_ → _))

/-- The accumulators that the instruction changed are legible, as they were and as they are. -/
def TraceRecord.Legible (r : TraceRecord) : Prop :=
  ∀ n : Fin 8, r.before.accumulators.get n ≠ r.after.accumulators.get n →
    (r.before.accumulators.get n).Legible ∧ (r.after.accumulators.get n).Legible

instance (r : TraceRecord) : Decidable r.Legible :=
  inferInstanceAs (Decidable (∀ _, _ → _))

/-- A text with a code that stands for no character. -/
def WordError.IsUnmapped (e : WordError) : Prop :=
  ∃ code position, e = .charset (.unmapped code position)

namespace Trace

/-! ## Words -/

theorem showWord_text (bits : BitVec 24) : showWord ⟨.text, bits⟩ =
    (fun text => Text.quoted (String.ofList (Charset.dropPadding text))) <$>
      (Charset.decodeCodes (Charset.codes bits) 0).mapError .charset := by
  simp only [showWord, Word.isInstruction, Word.datum, Charset.unpack]
  cases Charset.decodeCodes (Charset.codes bits) 0 <;> rfl

/-- A word can be shown exactly if it is legible. -/
theorem exists_showWord_iff {w : Word} : (∃ text, showWord w = .ok text) ↔ w.Legible := by
  obtain ⟨tag, bits⟩ := w
  cases tag with
  | instruction | integer | real => simp [showWord, Word.isInstruction, Word.datum, Word.Legible]
  | text =>
    have decoded := @Charset.exists_decodeCodes_iff (Charset.codes bits) 0
    simpa [showWord_text, map_eq_ok_iff, mapError_eq_ok_iff, Word.Legible] using decoded

theorem isUnmapped_of_showWord {w : Word} {e : WordError} (refused : showWord w = .error e) :
    e.IsUnmapped := by
  obtain ⟨tag, bits⟩ := w
  cases tag with
  | instruction | integer | real => cases refused
  | text =>
    rw [showWord_text, map_eq_error_iff, mapError_eq_error_iff] at refused
    obtain ⟨unmapped, undecoded, rfl⟩ := refused
    obtain ⟨code, position, rfl⟩ := Charset.unmapped_of_decodeCodes undecoded
    exact ⟨code, position, rfl⟩

theorem unbroken_showWord {w : Word} {text : String} (shown : showWord w = .ok text) :
    Text.Unbroken text.toList := by
  obtain ⟨tag, bits⟩ := w
  cases tag with
  | instruction =>
    cases shown
    exact Text.unbroken_octalPadded 8 _
  | integer =>
    cases shown
    exact Text.unbroken_numberText _
  | real =>
    cases shown
    exact Text.unbroken_numberText _
  | text =>
    rw [showWord_text, map_eq_ok_iff] at shown
    obtain ⟨content, -, rfl⟩ := shown
    exact Text.unbroken_quoted _

/-! ## Rows -/

/-- The texts of a change stay on one line. -/
structure Change.Unbroken (c : Change) : Prop where
  register : Text.Unbroken c.register.toList
  old : Text.Unbroken c.old.toList
  new : Text.Unbroken c.new.toList

section

variable {r : TraceRecord}

theorem exists_accumulatorChange_iff {n : Fin 8} : (∃ change, accumulatorChange r n = .ok change) ↔
    (r.before.accumulators.get n ≠ r.after.accumulators.get n →
      (r.before.accumulators.get n).Legible ∧ (r.after.accumulators.get n).Legible) := by
  unfold accumulatorChange
  dsimp only
  split
  next same => simp [same]
  next changed =>
    rw [← exists_showWord_iff, ← exists_showWord_iff]
    simp [changed, bind_eq_ok_iff, pure, Except.pure]

theorem isUnmapped_of_accumulatorChange {n : Fin 8} {e : WordError}
    (refused : accumulatorChange r n = .error e) : e.IsUnmapped := by
  unfold accumulatorChange at refused
  dsimp only at refused
  split at refused
  · cases refused
  · simp only [bind_eq_error_iff, pure, Except.pure, reduceCtorEq, and_false, exists_false, or_false] at refused
    rcases refused with before | ⟨-, -, after⟩
    · exact isUnmapped_of_showWord before
    · exact isUnmapped_of_showWord after

theorem unbroken_registerName (kind : String) (single : Text.Unbroken kind.toList) (n : Fin 8) :
    Text.Unbroken (kind ++ toString n.val).toList := by
  rw [String.toList_append, Text.unbroken_append_iff]
  exact ⟨single, Text.unbroken_toString_nat n.val⟩

theorem unbroken_accumulatorChange {n : Fin 8} {c : Change} (made : accumulatorChange r n = .ok (some c)) :
    c.Unbroken := by
  unfold accumulatorChange at made
  dsimp only at made
  split at made
  · cases made
  · obtain ⟨old, before, made⟩ := bind_eq_ok_iff.mp made
    obtain ⟨new, after, made⟩ := bind_eq_ok_iff.mp made
    cases made
    have name := unbroken_registerName "A" (by simp [Text.Unbroken, Text.endsLine]) n
    exact ⟨name, unbroken_showWord before, unbroken_showWord after⟩

theorem unbroken_indexChange {n : Fin 8} {c : Change} (made : indexChange r n = some c) : c.Unbroken := by
  unfold indexChange at made
  dsimp only at made
  split at made
  · cases made
  · cases made
    have name := unbroken_registerName "X" (by simp [Text.Unbroken, Text.endsLine]) n
    exact ⟨name, Text.unbroken_toString_int _, Text.unbroken_toString_int _⟩

/-- Registers that are as they were need not be legible. -/
theorem exists_changes_iff : (∃ list, changes r = .ok list) ↔ r.Legible := by
  simp only [changes, bind_pure_comp, map_eq_ok_iff, TraceRecord.Legible, ← exists_accumulatorChange_iff]
  rw [exists_comm]
  simp [exists_mapM_ok_iff]

theorem isUnmapped_of_changes {e : WordError} (refused : changes r = .error e) : e.IsUnmapped := by
  simp only [changes, bind_pure_comp, map_eq_error_iff] at refused
  obtain ⟨n, -, failed⟩ := exists_of_mapM_error refused
  exact isUnmapped_of_accumulatorChange failed

theorem unbroken_changes {list : List Change} (made : changes r = .ok list) : ∀ c ∈ list, c.Unbroken := by
  simp only [changes, bind_pure_comp, map_eq_ok_iff] at made
  obtain ⟨accumulators, shown, rfl⟩ := made
  intro c member
  rcases List.mem_append.mp member with accumulator | index
  · have listed : some c ∈ accumulators := by simpa using accumulator
    obtain ⟨n, -, here⟩ := exists_of_mem_mapM shown listed
    exact unbroken_accumulatorChange here
  · obtain ⟨n, -, here⟩ := List.mem_filterMap.mp index
    exact unbroken_indexChange here

/-- A row can be shown exactly if its record is legible. -/
theorem exists_row_iff : (∃ text, row r = .ok text) ↔ r.Legible := by
  simp only [row, bind_pure_comp, map_eq_ok_iff]
  rw [exists_comm]
  simp [exists_changes_iff]

theorem isUnmapped_of_row {e : WordError} (refused : row r = .error e) : e.IsUnmapped := by
  simp only [row, bind_pure_comp, map_eq_error_iff] at refused
  exact isUnmapped_of_changes refused

/-- A row stays on one line. -/
theorem unbroken_row {text : String} (named : Text.Unbroken r.name.toList) (made : row r = .ok text) :
    Text.Unbroken text.toList := by
  simp only [row, bind_pure_comp, map_eq_ok_iff] at made
  obtain ⟨list, shown, rfl⟩ := made
  have colon : Text.Unbroken ": ".toList := by simp [Text.Unbroken, Text.endsLine]
  have arrow : Text.Unbroken " -> ".toList := by simp [Text.Unbroken, Text.endsLine]
  have comma : Text.Unbroken ", ".toList := by simp [Text.Unbroken, Text.endsLine]
  have gap : Text.Unbroken "  ".toList := by simp [Text.Unbroken, Text.endsLine]
  have shownChange : ∀ t ∈ list.map fun c => s!"{c.register}: {c.old} -> {c.new}",
      Text.Unbroken t.toList := by
    intro t member
    obtain ⟨c, listed, rfl⟩ := List.mem_map.mp member
    have single := unbroken_changes shown c listed
    simp only [String.toList_append, Text.unbroken_append_iff]
    exact ⟨⟨⟨⟨single.register, colon⟩, single.old⟩, arrow⟩, single.new⟩
  refine Text.unbroken_trimEnd ?_
  simp only [String.toList_append, Text.unbroken_append_iff]
  exact ⟨⟨⟨⟨Text.unbroken_locationText _, gap⟩, Text.unbroken_padEnd named 6⟩, gap⟩,
    Text.unbroken_intercalate comma shownChange⟩

end

/-! ## Traces -/

variable {records : List TraceRecord}

/-- A trace can be shown exactly if all of its records are legible. -/
theorem exists_render_iff : (∃ text, render records = .ok text) ↔ ∀ r ∈ records, r.Legible := by
  simp only [render, bind_pure_comp, map_eq_ok_iff]
  rw [exists_comm]
  simp [exists_mapM_ok_iff, exists_row_iff]

/-- A trace is only refused for a text with a code that stands for no character. -/
theorem isUnmapped_of_render {e : WordError} (refused : render records = .error e) : e.IsUnmapped := by
  simp only [render, bind_pure_comp, map_eq_error_iff] at refused
  obtain ⟨r, -, failed⟩ := exists_of_mapM_error refused
  exact isUnmapped_of_row failed

/-- The text of a trace has one line for each record, in order. -/
theorem lines_render {text : String} (named : ∀ r ∈ records, Text.Unbroken r.name.toList)
    (rendered : render records = .ok text) :
    List.Forall₂ (fun r line => row r = .ok line) records (Text.lines text) := by
  simp only [render, bind_pure_comp, map_eq_ok_iff] at rendered
  obtain ⟨rows, shown, rfl⟩ := rendered
  have single : ∀ t ∈ rows, Text.Unbroken t.toList := by
    intro t member
    obtain ⟨r, listed, here⟩ := exists_of_mem_mapM shown member
    exact unbroken_row (named r listed) here
  rw [Text.lines_terminated single]
  exact mapM_eq_ok_iff.mp shown

end Trace

end WordMachine
