import Mathlib
import WordMachine.Text.Lines

/-!
# Texts and their lines

Lines that hold no character which ends a line come back from the text that they are put together to, with a
line feed after each of them or only between them. The lines of any text are such lines.
-/
namespace WordMachine.Text

/-- No character of the line ends it. -/
def Unbroken (cs : List Char) : Prop :=
  ∀ c ∈ cs, endsLine c = false

theorem linesFrom_of_unbroken {line : List Char} (unbroken : Unbroken line) (rest held : List Char) :
    linesFrom (line ++ rest) held = linesFrom rest (line.reverse ++ held) := by
  induction line generalizing held with
  | nil => rfl
  | cons c line ih =>
    have inside : endsLine c = false := unbroken c (by simp)
    have step : linesFrom (c :: (line ++ rest)) held = linesFrom (line ++ rest) (c :: held) := by
      rw [linesFrom]
      · simp [inside]
      · rintro more rfl -
        simp [endsLine] at inside
    rw [List.cons_append, step, ih (fun d member => unbroken d (by simp [member])), List.reverse_cons,
      List.append_assoc, List.singleton_append]

/-- The first line of a text, up to a line feed. -/
theorem lines_append {t : String} (unbroken : Unbroken t.toList) (rest : String) :
    lines (t ++ "\n" ++ rest) = t :: lines rest := by
  have first : linesFrom (t.toList ++ '\n' :: rest.toList) [] = t.toList :: linesFrom rest.toList [] := by
    rw [linesFrom_of_unbroken unbroken, linesFrom]
    · simp [endsLine]
    · simp
  simp [lines, first]

theorem linesFrom_last {line : List Char} (unbroken : Unbroken line) (visible : line ≠ []) :
    linesFrom line [] = [line] := by
  have whole := linesFrom_of_unbroken unbroken [] []
  rw [List.append_nil, List.append_nil] at whole
  simp [whole, linesFrom, visible]

/-- Lines with a line feed after each of them. -/
theorem lines_terminated {texts : List String} (unbroken : ∀ t ∈ texts, Unbroken t.toList) :
    lines (String.join (texts.map (· ++ "\n"))) = texts := by
  induction texts with
  | nil => rfl
  | cons t rest ih =>
    rw [List.map_cons, String.join_cons, lines_append (unbroken t (by simp)),
      ih fun u member => unbroken u (by simp [member])]

/-- Lines with a line feed between them. -/
theorem lines_separated {texts : List String} (unbroken : ∀ t ∈ texts, Unbroken t.toList)
    (visible : ∀ t ∈ texts, t ≠ "") : lines ("\n".intercalate texts) = texts := by
  induction texts with
  | nil => rfl
  | cons t rest ih =>
    have mine := unbroken t (by simp)
    cases rest with
    | nil =>
      have shown : t.toList ≠ [] := by simpa using visible t (by simp)
      rw [String.intercalate_singleton, lines, linesFrom_last mine shown]
      simp
    | cons u more =>
      rw [String.intercalate_cons_cons, lines_append mine,
        ih (fun v member => unbroken v (by simp [member])) fun v member => visible v (by simp [member])]

/-! ## Lines of any text -/

theorem unbroken_nil : Unbroken [] :=
  nofun

/-- No line has a line end in it. -/
theorem unbroken_of_mem_linesFrom {cs held line : List Char} (unbroken : Unbroken held)
    (member : line ∈ linesFrom cs held) : Unbroken line := by
  have reversed : Unbroken held.reverse := fun c inside => unbroken c (List.mem_reverse.mp inside)
  fun_induction linesFrom cs held with
  | case1 => simp at member
  | case2 =>
    rw [List.mem_singleton.mp member]
    exact reversed
  | case3 rest held ih =>
    rcases List.mem_cons.mp member with rfl | later
    · exact reversed
    · exact ih unbroken_nil later unbroken_nil
  | case4 c rest held _ ends ih =>
    rcases List.mem_cons.mp member with rfl | later
    · exact reversed
    · exact ih unbroken_nil later unbroken_nil
  | case5 c rest held _ inside ih =>
    have longer : Unbroken (c :: held) := by
      intro d within
      rcases List.mem_cons.mp within with rfl | earlier
      · exact Bool.not_eq_true _ ▸ inside
      · exact unbroken d earlier
    exact ih longer member fun d within => longer d (List.mem_reverse.mp within)

theorem infix_of_mem_linesFrom {cs held line : List Char} (member : line ∈ linesFrom cs held) :
    line <:+: held.reverse ++ cs := by
  fun_induction linesFrom cs held with
  | case1 => simp at member
  | case2 =>
    rw [List.mem_singleton.mp member, List.append_nil]
  | case3 rest held ih =>
    rcases List.mem_cons.mp member with rfl | later
    · exact (List.prefix_append _ _).isInfix
    · exact (ih later).trans ⟨held.reverse ++ ['\r', '\n'], [], by simp⟩
  | case4 c rest held _ ends ih =>
    rcases List.mem_cons.mp member with rfl | later
    · exact (List.prefix_append _ _).isInfix
    · exact (ih later).trans ⟨held.reverse ++ [c], [], by simp⟩
  | case5 c rest held _ inside ih => simpa using ih member

/-- No line holds a character that ends one. -/
theorem unbroken_of_mem_lines {s line : String} (member : line ∈ lines s) : Unbroken line.toList := by
  obtain ⟨cs, found, rfl⟩ := List.mem_map.mp member
  rw [String.toList_ofList]
  exact unbroken_of_mem_linesFrom unbroken_nil found

/-- Lines are pieces of the text. -/
theorem infix_of_mem_lines {s line : String} (member : line ∈ lines s) : line.toList <:+: s.toList := by
  obtain ⟨cs, found, rfl⟩ := List.mem_map.mp member
  rw [String.toList_ofList]
  exact infix_of_mem_linesFrom found

/-! ## Characters that are seen -/

/-- Every character is a space or one of ASCII that is seen. -/
def Visible (cs : List Char) : Prop :=
  ∀ c ∈ cs, 0x20 ≤ c.toNat ∧ c.toNat < 0x7f

namespace Visible

variable {c : Char} {cs rest : List Char}

theorem unbroken (visible : Visible cs) : Unbroken cs := by
  intro c member
  have range := visible c member
  simp only [endsLine, List.contains_eq_mem, List.mem_cons, List.not_mem_nil, or_false,
    decide_eq_false_iff_not]
  omega

theorem cons (seen : 0x20 ≤ c.toNat ∧ c.toNat < 0x7f) (others : Visible rest) : Visible (c :: rest) := by
  intro d member
  rcases List.mem_cons.mp member with rfl | later
  · exact seen
  · exact others d later

theorem append (visible : Visible cs) (others : Visible rest) : Visible (cs ++ rest) := by
  intro c member
  rcases List.mem_append.mp member with first | later
  · exact visible c first
  · exact others c later

theorem of_isDigit (digits : ∀ c ∈ cs, c.isDigit = true) : Visible cs := by
  intro c member
  have range : 48 ≤ c.toNat ∧ c.toNat ≤ 57 := by
    simpa [Char.isDigit, UInt32.le_iff_toNat_le] using digits c member
  omega

theorem of_isUpper (capitals : ∀ c ∈ cs, c.isUpper = true) : Visible cs := by
  intro c member
  have range : 65 ≤ c.toNat ∧ c.toNat ≤ 90 := by
    simpa [Char.isUpper, UInt32.le_iff_toNat_le] using capitals c member
  omega

theorem of_isAlphanum (all : ∀ c ∈ cs, c.isAlphanum = true) : Visible cs := by
  intro c member
  have range : (65 ≤ c.toNat ∧ c.toNat ≤ 90 ∨ 97 ≤ c.toNat ∧ c.toNat ≤ 122) ∨ 48 ≤ c.toNat ∧ c.toNat ≤ 57 := by
    simpa [Char.isAlphanum, Char.isAlpha, Char.isUpper, Char.isLower, Char.isDigit, UInt32.le_iff_toNat_le]
      using all c member
  omega

end Visible

end WordMachine.Text
