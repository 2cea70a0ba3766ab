import WordMachine.Proofs.Source.Commented

/-!
# Tokens before a trailing text

Free text after the word of a line is scanned like the word. A blank before it keeps the two apart: no token but a
text goes on over a blank, so the tokens before it stay as they are, and those of the text come after them
(`scanAll_trailing`). Nothing is said of lines with a text that is never closed, since the parser reads no word from
them.
-/
namespace WordMachine.Legacy

open Source Source.Token

/-! ## One token -/

/-- An octal word is ten characters without a blank, whatever follows them. -/
theorem exists_octalWord {cs : List Char} {kind : TokenKind} (found : octalWord? cs = some kind) :
    ∃ word, word.length = 10 ∧ ' ' ∉ word ∧ word <+: cs ∧ ∀ tail, octalWord? (word ++ tail) = some kind := by
  unfold octalWord? at found
  split at found
  next designator more =>
    dsimp only at found
    split at found
    next shaped =>
      cases found
      simp only [Bool.and_eq_true, beq_iff_eq] at shaped
      obtain ⟨⟨⟨known, eight⟩, octal⟩, closed⟩ := shaped
      obtain ⟨after, split⟩ : ∃ after, more.drop 8 = ')' :: after := by
        cases rest : more.drop 8 with
        | nil => simp [rest] at closed
        | cons c after =>
          obtain rfl : c = ')' := by simpa [rest] using closed
          exact ⟨after, rfl⟩
      have whole : more = more.take 8 ++ ')' :: after := by rw [← split, List.take_append_drop]
      have same (tail : List Char) : (more.take 8 ++ ')' :: tail).take 8 = more.take 8 := List.take_left' eight
      have rest (tail : List Char) : (more.take 8 ++ ')' :: tail).drop 8 = ')' :: tail := List.drop_left' eight
      refine ⟨designator :: (more.take 8 ++ [')']), by simp [eight], ?_, ?_, fun tail => ?_⟩
      · intro blank
        rcases List.mem_cons.mp blank with letter | inside
        · rw [← letter] at known
          cases known
        · rcases List.mem_append.mp inside with digit | close
          · have range := List.all_eq_true.mp octal ' ' digit
            cases range
          · cases List.mem_singleton.mp close
      · refine ⟨after, ?_⟩
        rw [List.cons_append, List.append_assoc, List.singleton_append, ← whole]
      · rw [List.cons_append, List.append_assoc, List.singleton_append]
        simp only [octalWord?, same, rest, known, eight, octal]
        rfl
    · cases found
  · cases found

/-- No octal word is completed by a blank and what follows it. -/
theorem octalWord?_trailing (rest more : List Char) : octalWord? (rest ++ ' ' :: more) = octalWord? rest := by
  cases shorter : octalWord? rest with
  | some kind =>
    obtain ⟨word, -, -, ⟨tail, rfl⟩, again⟩ := exists_octalWord shorter
    rw [List.append_assoc]
    exact again _
  | none =>
    rw [Option.eq_none_iff_forall_ne_some]
    intro kind longer
    obtain ⟨word, ten, blankless, front, again⟩ := exists_octalWord longer
    rcases Nat.lt_or_ge rest.length 10 with less | enough
    · -- The blank would stand among the ten characters.
      have blank : rest ++ [' '] <+: rest ++ ' ' :: more := ⟨more, by simp⟩
      have covered := List.prefix_of_prefix_length_le blank front (by rw [List.length_append, ten]; exact less)
      exact blankless (covered.subset (by simp))
    · obtain ⟨tail, rfl⟩ := List.prefix_of_prefix_length_le front (List.prefix_append rest _) (ten ▸ enough)
      rw [again] at shorter
      cases shorter

theorem separates_blank : Separates legacyRules ' ' :=
  ⟨by decide, rfl, by decide, fun _ => octalWord?_trailing⟩

/-! ## One line -/

/-- The tokens of a line, and those of the line with a text after it, which has the tokens `more`. If the line has a
text that is never closed, as the third argument says, they are the same. All but the last stand on the line, which
has the width `width`. -/
inductive Extends (more : List Token) (width : Nat) : Bool → List Token → List Token → Prop
  | ended {last : Token} (ends : last.kind = .endOfLine) : Extends more width false [last] more
  | unclosed {t : Token} {content : String} (opens : t.kind = .openText content) (inside : t.column - 1 < width)
      (others : List Token) : Extends more width true (t :: others) (t :: others)
  | token {broken : Bool} {t : Token} {tokens tokens' : List Token} (inner : t.kind.isInner = true)
      (inside : t.column - 1 < width) (others : Extends more width broken tokens tokens') :
      Extends more width broken (t :: tokens) (t :: tokens')

/-- A line keeps its tokens before a blank and a text, and after them come those of the text. -/
theorem scanAll_trailing {cs : List Char} {column width : Nat} {spaced : Bool} {tokens : List Token}
    (read : scanAll legacyRules cs column spaced = .ok tokens) (one : 1 ≤ column)
    (whole : column + cs.length = width + 1) (added : List Char) :
    (∃ front, (∀ more, Extends more width false tokens (front ++ more)) ∧
      scanAll legacyRules (cs ++ ' ' :: added) column spaced =
        (front ++ ·) <$> scanAll legacyRules added (width + 2) true) ∨
      ∀ more, Extends more width true tokens tokens := by
  fun_induction scanAll legacyRules cs column spaced generalizing tokens with
  | case1 column spaced =>
    cases read
    obtain rfl : column = width + 1 := whole
    refine Or.inl ⟨[], fun more => .ended rfl, ?_⟩
    rw [List.nil_append, scanAll_of_gap _ rfl]
    cases scanAll legacyRules added (width + 2) true <;> rfl
  | case2 column spaced c rest blank ih =>
    rw [List.length_cons] at whole
    rw [List.cons_append, scanAll_of_gap _ blank]
    exact ih read (by omega) (by omega)
  | case3 column spaced c rest visible ih =>
    have seen : isGap c = false := by simpa using visible
    rw [List.length_cons] at whole
    obtain ⟨⟨kind, n⟩, taken, read⟩ := bind_eq_ok_iff.mp read
    obtain ⟨others, later, made⟩ := bind_eq_ok_iff.mp read
    cases made
    have inside : column - 1 < width := by omega
    have unmarked : legacyRules.commentMark ≠ some c := by simp [legacyRules]
    rcases scan_mark_cases separates_blank unmarked taken added with ⟨inner, bound, again⟩ | ⟨content, opens⟩
    · have scanned := scanAll_of_token seen again column spaced
      rw [List.drop_append_of_le_length bound, List.take_append_of_le_length bound] at scanned
      have rest := ih n later (by omega) (by rw [List.length_drop]; omega)
      rcases rest with ⟨front, extended, trailing⟩ | broken
      · refine Or.inl ⟨_ :: front, fun more => .token inner inside (extended more), ?_⟩
        rw [List.cons_append, scanned, trailing]
        cases scanAll legacyRules added (width + 2) true <;> rfl
      · exact Or.inr fun more => .token inner inside (broken more)
    · exact Or.inr fun more => .unclosed opens inside others

end WordMachine.Legacy
