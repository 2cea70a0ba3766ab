import WordMachine.Proofs.Source.OperandPlaces
import WordMachine.Proofs.Source.WrittenLine

/-!
# Numbers of a line that was read

A numeral is read only if it does not have too many digits, so the number of a token can be written. The numbers of a
line that was read are those of its tokens, but for the number of a routine that is called by its name and for
constants, which are held by words. So all of them can be written.
-/
namespace WordMachine.Source

open Token

/-! ## Tokens -/

theorem readNumeral_of_numeral {numeral : Numeral} {n : Nat} (made : numeral.kind = .ok (.number n)) :
    Text.readNumeral numeral.whole = .ok n := by
  unfold Numeral.kind at made
  split at made
  · split at made
    next read =>
      cases made
      exact read
    · cases made
  · dsimp only at made
    split at made <;> cases made

theorem isWritable_of_scan {rules : LexicalRules} {c : Char} {rest : List Char} {kind : TokenKind} {width n : Nat}
    (taken : scan rules c rest = .ok (kind, width)) (number : kind = .number n) : Text.isWritable n = true := by
  cases scanned_of_scan taken with
  | comment | name => cases number
  | text =>
    unfold scanText at number
    dsimp only at number
    split at number <;> cases number
  | octal word =>
    unfold octalWord? at word
    split at word
    · dsimp only at word
      split at word <;> cases word
      cases number
    · cases word
  | numeral made => exact Text.isWritable_of_readNumeral (readNumeral_of_numeral (number ▸ made))
  | mark =>
    unfold punctuation? at number
    split at number <;> cases number

/-- By induction along the scanner. -/
theorem isWritable_of_scanAll {rules : LexicalRules} {cs : List Char} {column : Nat} {spaced : Bool}
    {tokens : List Token} (scanned : scanAll rules cs column spaced = .ok tokens) :
    ∀ t ∈ tokens, ∀ n, t.kind = .number n → Text.isWritable n = true := by
  fun_induction scanAll rules cs column spaced generalizing tokens with
  | case1 =>
    cases scanned
    intro t member n number
    rw [List.mem_singleton.mp member] at number
    cases number
  | case2 column spaced c rest blank ih => exact ih scanned
  | case3 column spaced c rest visible ih =>
    obtain ⟨⟨kind, n⟩, taken, read⟩ := bind_eq_ok_iff.mp scanned
    obtain ⟨others, later, made⟩ := bind_eq_ok_iff.mp read
    cases made
    exact List.forall_mem_cons.mpr ⟨fun n number => isWritable_of_scan taken number, ih n later⟩

/-- The numbers among the tokens of a line can be written, for they were read. -/
theorem isWritable_of_ofLine {rules : LexicalRules} {line : String} {tokens : List Token}
    (scanned : ofLine rules line = .ok tokens) :
    ∀ t ∈ tokens, ∀ n, t.kind = .number n → Text.isWritable n = true := by
  unfold ofLine at scanned
  split at scanned
  · cases scanned
  · exact isWritable_of_scanAll scanned

/-! ## Lines -/

theorem Passes.exists_token {kinds : List TokenKind} {tokens rest : List Token} (passes : Passes kinds tokens rest)
    {kind : TokenKind} (member : kind ∈ kinds) : ∃ t ∈ tokens, t.kind = kind := by
  obtain ⟨front, rfl, rfl⟩ := passes.split
  obtain ⟨t, place, same⟩ := List.mem_map.mp member
  exact ⟨t, List.mem_append_left _ place, same⟩

theorem Constant.isWritable_of_fits {c : Constant} (fits : c.Fits) : ∀ n ∈ c.numbers, Text.isWritable n = true := by
  cases c with
  | integer n =>
    obtain ⟨w, made⟩ := fits
    have small : Word.fits n := by
      by_contra unfit
      simp [word, Word.ofInteger, StoredInteger.encode, unfit] at made
    intro m member
    rw [List.mem_singleton.mp member]
    exact Text.isWritable_of_natAbs_lt (Nat.lt_of_le_of_lt (Word.natAbs_le_of_fits small) (by decide))
  | real | text =>
    intro m member
    exact absurd member List.not_mem_nil

/-- The numbers of an operand that names a location are those of its tokens. -/
theorem AddressOperand.exists_kind {a : AddressOperand} {n : Int} (member : n ∈ (Operand.address a).numbers) :
    ∃ k : Nat, n = k ∧ TokenKind.number k ∈ a.kinds := by
  obtain ⟨target, index, indirect, column⟩ := a
  have indexed (found : n ∈ index.toList.map Int.ofNat) : ∃ k : Nat, n = k ∧ TokenKind.number k ∈ indexKinds index := by
    obtain ⟨k, present, rfl⟩ := List.mem_map.mp found
    obtain rfl := Option.mem_toList.mp present
    exact ⟨k, rfl, by simp [indexKinds]⟩
  cases target with
  | location k =>
    rcases List.mem_cons.mp member with rfl | found
    · exact ⟨k, rfl, by simp [kinds, Target.kind]⟩
    · obtain ⟨k, rfl, place⟩ := indexed found
      exact ⟨k, rfl, by simp [kinds, place]⟩
  | label name =>
    obtain ⟨k, rfl, place⟩ := indexed member
    exact ⟨k, rfl, by simp [kinds, place]⟩

/-- The numbers of an operand can be written if those of its tokens can. A routine that is called by its name has a
number without a token, and a small one. -/
theorem Statement.isWritable_of_operand {s : Statement} (admitted : (Content.statement s).Admitted)
    (known : ∀ a (k : Nat), s.operand = some (.address a) → s.routine = none → TokenKind.number k ∈ a.kinds →
      Text.isWritable k = true) : ∀ n ∈ s.operand.elim [] Operand.numbers, Text.isWritable n = true := by
  obtain ⟨fits, routines⟩ := admitted
  intro n member
  cases present : s.operand with
  | none => simp [present] at member
  | some o =>
    rw [present, Option.elim_some] at member
    cases o with
    | constant c column => exact Constant.isWritable_of_fits (fits c column present) n member
    | address a =>
      cases called : s.routine with
      | none =>
        obtain ⟨k, rfl, place⟩ := AddressOperand.exists_kind member
        exact known a k present called place
      | some r =>
        cases present.symm.trans (routines r called).2
        rw [List.mem_singleton.mp member]
        exact Text.isWritable_of_lt (by cases r <;> decide)

/-- The numbers of a line can be written, for the parser takes each of them from a token. -/
theorem isWritable_of_ofTokens {text file : String} {number : Int} {tokens : List Token} {line : Line}
    (scanned : ofLine symbolicRules text = .ok tokens)
    (read : (Line.ofTokens tokens text file number).value = .ok line) (admitted : line.Admitted) :
    ∀ n ∈ line.numbers, Text.isWritable n = true := by
  obtain ⟨before, last, whole, ends, -, inner⟩ := (covers_of_ofLine scanned).1.ends
  obtain ⟨content, rest, comment, written, -, rfl⟩ := ofTokens_eq_ok_iff.mp read
  have located := passes_location ⟨before, last, whole, ends, inner⟩
  have labelled := passes_label located.closed
  -- what was read up to some place has only numbers of the line's tokens
  have known {kinds : List TokenKind} {left : List Token} (passes : Passes kinds tokens left) {n : Nat}
      (member : TokenKind.number n ∈ kinds) : Text.isWritable n = true := by
    obtain ⟨t, place, kind⟩ := passes.exists_token member
    exact isWritable_of_ofLine scanned t place n kind
  intro n member
  rcases List.mem_append.mp member with location | inside
  · obtain ⟨k, present, rfl⟩ := List.mem_map.mp location
    exact known located (List.mem_map_of_mem present)
  · cases content with
    | none => cases inside
    | some content =>
      cases content with
      | constant c => exact Constant.isWritable_of_fits (admitted _ rfl) n inside
      | statement s =>
        obtain ⟨name, middle, lead, operands⟩ := passes_content labelled.closed written
        have front := (located.trans labelled).trans lead
        rcases List.mem_append.mp inside with accumulator | operand
        · obtain ⟨k, present, rfl⟩ := List.mem_map.mp accumulator
          obtain present := Option.mem_toList.mp present
          refine known front (List.mem_append_right _ (List.mem_append_right _ ?_))
          simp [accumulatorKinds, present]
        · refine Statement.isWritable_of_operand (admitted _ rfl) (fun a k present called place => ?_) n operand
          exact known (front.trans (operands a present called).2) (List.mem_append_right _ place)

/-- Every number of a line that was read can be written. -/
theorem Line.IsParsed.isWritable {line : Line} (parsed : line.IsParsed) :
    ∀ n ∈ line.numbers, Text.isWritable n = true := by
  have admitted := parsed.admitted
  obtain ⟨text, file, number, warnings, read⟩ := parsed
  obtain ⟨tokens, scanned, made⟩ := bind_eq_ok_iff.mp read
  have value := congrArg Warned.value (Except.ok.inj made)
  exact isWritable_of_ofTokens scanned value admitted

end WordMachine.Source
