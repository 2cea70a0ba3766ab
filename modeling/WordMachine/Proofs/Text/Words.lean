import Mathlib
import WordMachine.Text.Blank
import WordMachine.Text.Lines

/-!
# Words of a text

No word goes on over white space, so the words of a text are those of its first line and then those of the rest, and
how its lines end makes no difference to them.
-/
namespace WordMachine.Text

def words (cs : List Char) : List String :=
  (blankSeparated cs).map String.ofList

theorem words_nil : words [] = [] :=
  rfl

section

variable {c : Char} (blank : isBlank c = true)
include blank

/-- Words end at white space, `held` being the characters of a word that come before. -/
theorem go_append_blank (cs rest held : List Char) :
    blankSeparated.go (cs ++ c :: rest) held = blankSeparated.go cs held ++ blankSeparated.go rest [] := by
  induction cs generalizing held with
  | nil => cases held <;> simp [blankSeparated.go, blank]
  | cons d cs ih =>
    rw [List.cons_append, blankSeparated.go, blankSeparated.go]
    split
    · split <;> simp [ih]
    · exact ih (d :: held)

/-- Words before and after a blank are words of their own. -/
theorem words_append_blank (cs rest : List Char) : words (cs ++ c :: rest) = words cs ++ words rest := by
  rw [words, blankSeparated, go_append_blank blank, List.map_append]
  rfl

end

/-- A line ends in a line feed, or with the text. -/
theorem takeLine_ends (cs : List Char) :
    (∃ front, (takeLine cs).1 = front ++ ['\n']) ∨ (takeLine cs).2 = [] := by
  induction cs with
  | nil => exact Or.inr rfl
  | cons c rest ih =>
    unfold takeLine
    split
    next feed => exact Or.inl ⟨[], by rw [feed]; rfl⟩
    · rcases ih with ⟨front, line⟩ | last
      · exact Or.inl ⟨c :: front, by simp [line]⟩
      · exact Or.inr last

/-- The words of the first line, and then those of the text after it. -/
theorem words_takeLine (cs : List Char) : words cs = words (takeLine cs).1 ++ words (takeLine cs).2 := by
  have whole := takeLine_append cs
  rcases takeLine_ends cs with ⟨front, line⟩ | last
  · have feed : isBlank '\n' = true := by decide
    have first : words (front ++ ['\n']) = words front := by
      rw [words_append_blank feed, words_nil, List.append_nil]
    rw [line, first, ← words_append_blank feed, ← List.singleton_append, ← List.append_assoc, ← line, whole]
  · rw [last, List.append_nil] at whole
    rw [last, words_nil, List.append_nil, whole]

theorem go_unifyLineEnds (cs held : List Char) :
    blankSeparated.go (unifyLineEnds cs) held = blankSeparated.go cs held := by
  induction cs using unifyLineEnds.induct generalizing held with
  | case1 rest ih => cases held <;> simp [unifyLineEnds, blankSeparated.go, ih, isBlank]
  | case2 c rest other ih =>
    rw [unifyLineEnds]
    · by_cases returned : c = '\r'
      · subst returned
        cases held <;> simp [blankSeparated.go, ih, isBlank]
      · rw [if_neg returned, blankSeparated.go, blankSeparated.go]
        split
        · split <;> simp [ih]
        · exact ih (c :: held)
    · exact other
  | case3 => rfl

/-- How lines end makes no difference to the words. -/
theorem words_unifyLineEnds (cs : List Char) : words (unifyLineEnds cs) = words cs :=
  congrArg (List.map String.ofList) (go_unifyLineEnds cs [])

end WordMachine.Text
