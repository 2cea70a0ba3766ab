import WordMachine.Proofs.Machine.Consumption
import WordMachine.Proofs.Text.Words

/-!
# Words read from a text

A machine that reads from a text takes its words one after the other, however they are spread over lines: the words
taken so far and those that are left are the words of the text (`Machine.Visits.words`). A call of the routine that
reads finds its input exhausted exactly when no word is left.
-/
namespace WordMachine

open Numeric

namespace NumberStream

/-- The words that are left: those of the current line, and those of the text after it. -/
def words (s : NumberStream) : List String :=
  s.pending ++ Text.words s.text

/-- The first line with words on it has the first words of the text; there is none if the text has no words. -/
theorem words_nextWords (text : List Char) :
    Text.words text = (nextWords text).1 ++ Text.words (nextWords text).2 ∧
      ((nextWords text).1 = [] → (nextWords text).2 = []) := by
  induction text using nextWords.induct with
  | case1 => simp [nextWords]
  | case2 text visible line after taken blank ih =>
    have first : Text.words (Text.takeLine text).1 = [] := by
      rw [Text.words, taken, blank]
      rfl
    have here : nextWords text = nextWords (Text.takeLine text).2 := by
      rw [nextWords, dif_neg visible]
      simp only [taken, blank]
    rw [here, Text.words_takeLine, first, List.nil_append]
    exact ih
  | case3 text visible line after taken blank =>
    have here : nextWords text = (Text.words line, after) := by
      rw [nextWords, dif_neg visible]
      simp only [taken]
      rfl
    rw [here, Text.words_takeLine, taken]
    refine ⟨rfl, fun none => ?_⟩
    exact absurd (List.map_eq_nil_iff.mp none) (by simpa using blank)

/-- What is asked for is the first of the words that are left, and there is nothing only if none is left. -/
theorem next_cases (s : NumberStream) :
    (s.words = [] ∧ ∃ rest : NumberStream, s.next = .exhausted rest ∧ rest.words = []) ∨
      ∃ word rest, s.words = word :: rest.words ∧ s.next = deliver word rest := by
  obtain ⟨pending, text⟩ := s
  cases pending with
  | cons word pending => exact Or.inr ⟨word, ⟨pending, text⟩, rfl, rfl⟩
  | nil =>
    obtain ⟨split, last⟩ := words_nextWords text
    cases found : nextWords text with
    | mk line after =>
      rw [found] at split last
      cases line with
      | nil =>
        obtain rfl : after = [] := last rfl
        exact Or.inl ⟨split, ⟨[], []⟩, by rw [next, found], rfl⟩
      | cons word pending => exact Or.inr ⟨word, ⟨pending, after⟩, split, by rw [next, found]⟩

end NumberStream

namespace Machine

/-- The text that the machine reads from; an empty one if it does not read from a text. -/
def stream (m : Machine) : NumberStream :=
  match m.supply.input with
  | .stream s => s
  | _ => { text := [] }

def takenWord? (m : Machine) : Option String :=
  if m.reads then m.stream.words.head? else none

section

variable {m : Machine} {s : NumberStream} (supplied : m.supply.input = .stream s)
include supplied

theorem stream_eq : m.stream = s := by
  simp [stream, supplied]

/-- What a step takes is the first of the words that were left. -/
theorem words_step : ∃ rest, m.step.1.supply.input = .stream rest ∧ m.takenWord?.toList ++ rest.words = s.words := by
  rw [input_step, takenWord?, stream_eq supplied, supplied]
  cases m.reads with
  | false => exact ⟨s, rfl, rfl⟩
  | true =>
    rcases s.next_cases with ⟨none, rest, next, last⟩ | ⟨word, rest, first, next⟩
    · refine ⟨rest, ?_, by simp [none, last]⟩
      simp [Input.next, next, Delivery.map, Delivery.rest]
    · refine ⟨rest, ?_, by simp [first]⟩
      cases value : Number.read? word <;>
        simp [Input.next, next, NumberStream.deliver, value, Delivery.map, Delivery.rest]

/-- The number taken is the one that the word stands for. -/
theorem taken_eq_read : m.taken? = m.takenWord?.bind Number.read? := by
  rw [taken?, takenWord?, stream_eq supplied, supplied]
  cases m.reads with
  | false => rfl
  | true =>
    rcases s.next_cases with ⟨none, rest, next, -⟩ | ⟨word, rest, first, next⟩
    · simp [Input.next, next, none, Delivery.map, Delivery.number?]
    · cases value : Number.read? word <;>
        simp [Input.next, next, first, NumberStream.deliver, value, Delivery.map, Delivery.number?]

/-- A call of the routine that reads faults for want of input exactly when no word is left. -/
theorem exhausted_iff (reads : m.reads = true) :
    (∃ f, m.step.2 = some (.fault f) ∧ f.cause = .inputExhausted) ↔ s.words = [] := by
  obtain ⟨live, i, fetched, called⟩ := exists_call_of_reads reads
  have executed := execute_read called
  unfold readNumber at executed
  rw [supplied] at executed
  rcases s.next_cases with ⟨none, rest, next, -⟩ | ⟨word, rest, first, next⟩
  · refine iff_of_true ?_ none
    simp only [Input.next, next, Delivery.map] at executed
    rw [step_of_faulted live fetched executed, faultWith_of_writable _ rfl]
    exact ⟨_, rfl, rfl⟩
  · refine iff_of_false ?_ (by simp [first])
    intro ⟨f, faulted, cause⟩
    cases value : Number.read? word with
    | none =>
      simp only [Input.next, next, NumberStream.deliver, value, Option.elim_none, Delivery.map] at executed
      rw [step_of_unreadable live fetched executed] at faulted
      cases faulted
    | some n =>
      have taken : m.taken? = some n := by
        simp [taken_eq_read supplied, takenWord?, reads, stream_eq supplied, first, value]
      cases reading reads with
      | completed _ _ completed => cases completed.symm.trans faulted
      | nothing none => cases none.symm.trans taken
      | refused _ _ outcome =>
        obtain ⟨supply, name, result⟩ := outcome
        rw [result] at faulted
        cases cause.symm.trans (cause_of_faultWith faulted)

end

/-! ## Runs -/

section

variable {start m : Machine} {steps : List Machine} {s : NumberStream}

/-- The words taken, in order, and those left are the words that were given. -/
theorem Visits.words (visits : Visits start steps m) (supplied : start.supply.input = .stream s) :
    ∃ left, m.supply.input = .stream left ∧ steps.filterMap takenWord? ++ left.words = s.words := by
  induction visits with
  | start => exact ⟨s, supplied, rfl⟩
  | step _ ih =>
    obtain ⟨left, here, parts⟩ := ih
    obtain ⟨rest, there, first⟩ := words_step here
    refine ⟨rest, there, ?_⟩
    rw [← parts, ← first, List.filterMap_append, ← List.append_assoc]
    cases taken : takenWord? _ <;> simp [taken]
  | cancel _ _ ih => exact ih

/-- A machine that a run comes to is visited by the steps before it. -/
theorem Visits.before (visits : Visits start steps m) {earlier later : List Machine} {x : Machine}
    (split : steps = earlier ++ x :: later) : Visits start earlier x := by
  induction visits generalizing later with
  | start => simp at split
  | @step steps m visits ih =>
    rcases List.eq_nil_or_concat later with rfl | ⟨more, last, rfl⟩
    · obtain ⟨rfl, same⟩ := List.append_inj' split rfl
      obtain rfl : m = x := by simpa using same
      exact visits
    · have inner : steps ++ [m] = (earlier ++ x :: more) ++ [last] := by simpa using split
      exact ih (List.append_inj' inner rfl).1
  | cancel _ _ ih => exact ih split

/-- Every machine that a run comes to still reads from the text. -/
theorem Visits.streaming (visits : Visits start steps m) (supplied : start.supply.input = .stream s) :
    ∀ x ∈ steps, ∃ left, x.supply.input = .stream left := by
  intro x member
  obtain ⟨earlier, later, split⟩ := List.append_of_mem member
  obtain ⟨left, here, -⟩ := (visits.before split).words supplied
  exact ⟨left, here⟩

/-- The numbers taken are those that the words taken stand for. -/
theorem Visits.numbers (visits : Visits start steps m) (supplied : start.supply.input = .stream s) :
    steps.filterMap taken? = (steps.filterMap takenWord?).filterMap Number.read? := by
  rw [List.filterMap_filterMap]
  apply List.filterMap_congr
  intro x member
  obtain ⟨left, here⟩ := visits.streaming supplied x member
  exact taken_eq_read here

end

end Machine

end WordMachine
