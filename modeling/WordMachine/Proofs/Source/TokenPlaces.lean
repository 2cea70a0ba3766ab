import WordMachine.Proofs.Source.Commented

/-!
# Where tokens stand

The tokens of a line are slices of it, in order and apart, and what they leave out are spaces and tabs (`Covers`).
So each token says by itself whether anything stands before it, and a comment, which goes on to the end of the line,
is followed by nothing else.

The line is cut along its tokens once (`Laid`), gap by gap; all that is said of columns is read off these pieces.
-/
namespace WordMachine.Source.Token

/-- The characters of a line from one column up to another. -/
def between (line : List Char) (first last : Nat) : List Char :=
  (line.drop (first - 1)).take (last - first)

def next (t : Token) : Nat :=
  t.column + t.text.length

/-- Between a column and a token there are only spaces and tabs, and the token says whether there are any. -/
structure Follows (line : List Char) (column : Nat) (t : Token) : Prop where
  order : column ≤ t.column
  blank : ∀ c ∈ between line column t.column, c = ' ' ∨ c = '\t'
  spaced : t.spaceBefore = true ↔ column < t.column

/-- The tokens are all that stands on a line from a column on. -/
structure Covers (line : List Char) (column : Nat) (tokens : List Token) : Prop where
  ends : ∃ before last, tokens = before ++ [last] ∧ last.kind = .endOfLine ∧ last.column = line.length + 1 ∧
    ∀ t ∈ before, t.kind ≠ .endOfLine
  slice : ∀ t ∈ tokens, t.text.toList = between line t.column t.next
  empty : ∀ t ∈ tokens, t.text = "" ↔ t.kind = .endOfLine
  first : ∀ t others, tokens = t :: others → Follows line column t
  following : ∀ before s t others, tokens = before ++ s :: t :: others → Follows line s.next t
  comment : ∀ before t others content, tokens = before ++ t :: others → t.kind = .comment content →
    t.next = line.length + 1 ∧ ∃ last, others = [last] ∧ last.kind = .endOfLine

/-! ## One token -/

theorem isGap_iff {c : Char} : isGap c = true ↔ c = ' ' ∨ c = '\t' := by
  rw [isGap, Bool.or_eq_true, beq_iff_eq, beq_iff_eq]

theorem scanText_takes (rules : LexicalRules) (rest : List Char) :
    (scanText rules rest).2 ≤ rest.length ∧ (scanText rules rest).1 ≠ .endOfLine ∧
      ∀ content, (scanText rules rest).1 ≠ .comment content := by
  have run := (List.takeWhile_prefix (p := (· != rules.closeQuote)) (l := rest)).length_le
  unfold scanText
  dsimp only
  split
  next closed => exact ⟨closed, nofun, nofun⟩
  · exact ⟨run, nofun, nofun⟩

/-- No token goes beyond its line or is the end of it, and a comment goes on to the end. -/
theorem scan_takes {rules : LexicalRules} {c : Char} {rest : List Char} {kind : TokenKind} {n : Nat}
    (taken : scan rules c rest = .ok (kind, n)) :
    n ≤ rest.length ∧ kind ≠ .endOfLine ∧ ∀ content, kind = .comment content → n = rest.length := by
  by_cases marked : rules.commentMark = some c
  · rw [scan, if_pos marked] at taken
    cases taken
    exact ⟨Nat.le_refl _, by simp, fun _ _ => rfl⟩
  by_cases quote : c = rules.openQuote
  · obtain ⟨bound, visible, uncommented⟩ := scanText_takes rules rest
    rw [scan, if_neg marked, if_pos quote] at taken
    rw [Except.ok.inj taken] at bound visible uncommented
    exact ⟨bound, visible, fun content comment => absurd comment (uncommented content)⟩
  · obtain ⟨inner, bound⟩ := inner_of_scan marked quote taken
    refine ⟨bound, ?_, ?_⟩
    · rintro rfl
      cases inner
    · rintro content rfl
      cases inner

/-! ## One line -/

/-- The characters from a column on, cut into gaps and the characters of tokens. -/
inductive Laid : Nat → List Char → List Token → Prop
  | done (column : Nat) {gap : List Char} (blank : ∀ c ∈ gap, isGap c = true) :
    Laid column gap [⟨.endOfLine, "", column + gap.length, !gap.isEmpty⟩]
  | token {column : Nat} {gap cs rest : List Char} {kind : TokenKind} {tokens : List Token}
    (blank : ∀ c ∈ gap, isGap c = true) (some : cs ≠ []) (visible : kind ≠ .endOfLine)
    (last : ∀ content, kind = .comment content → rest = [])
    (others : Laid (column + gap.length + cs.length) rest tokens) :
    Laid column (gap ++ cs ++ rest) (⟨kind, String.ofList cs, column + gap.length, !gap.isEmpty⟩ :: tokens)

/-- The scanner cuts the line, also where it is in the middle of a gap. -/
theorem laid_of_scanAll {rules : LexicalRules} {cs : List Char} {here : Nat} {spaced : Bool} {tokens : List Token}
    (scanned : scanAll rules cs here spaced = .ok tokens) {column : Nat} (gap : List Char)
    (blank : ∀ c ∈ gap, isGap c = true) (place : here = column + gap.length) (seen : spaced = !gap.isEmpty) :
    Laid column (gap ++ cs) tokens := by
  fun_induction scanAll rules cs here spaced generalizing column gap tokens with
  | case1 =>
    cases scanned
    rw [List.append_nil, place, seen]
    exact .done column blank
  | case2 here spaced c rest isBlank ih =>
    have longer : ∀ d ∈ gap ++ [c], isGap d = true := by
      intro d member
      rcases List.mem_append.mp member with before | last
      · exact blank d before
      · rwa [List.mem_singleton.mp last]
    rw [List.append_cons]
    exact ih scanned (gap ++ [c]) longer (by rw [List.length_append, place]; rfl) (by simp)
  | case3 here spaced c rest visible ih =>
    obtain ⟨⟨kind, n⟩, taken, read⟩ := bind_eq_ok_iff.mp scanned
    obtain ⟨others, later, made⟩ := bind_eq_ok_iff.mp read
    cases made
    obtain ⟨bound, inner, comment⟩ := scan_takes taken
    have length : (c :: rest.take n).length = 1 + n := by
      rw [List.length_cons, List.length_take_of_le bound, Nat.add_comm]
    have cut : gap ++ c :: rest = gap ++ (c :: rest.take n) ++ (rest.drop n ++ []) := by simp
    rw [cut, place, seen, List.append_nil]
    refine .token blank (List.cons_ne_nil _ _) inner (fun content same => ?_) ?_
    · rw [comment content same, List.drop_length]
    · exact ih n later [] (by simp) (by rw [length, place, List.length_nil]; omega) rfl

/-! ## Columns -/

theorem between_append (before middle after : List Char) {first last : Nat} (start : first = before.length + 1)
    (stop : last = first + middle.length) : between (before ++ middle ++ after) first last = middle := by
  subst start stop
  simp [between]

theorem follows_of_gap (before after : List Char) {gap : List Char} {column : Nat} {t : Token}
    (start : column = before.length + 1) (blank : ∀ c ∈ gap, isGap c = true) (place : t.column = column + gap.length)
    (spaced : t.spaceBefore = !gap.isEmpty) : Follows (before ++ gap ++ after) column t := by
  refine ⟨by omega, ?_, ?_⟩
  · rw [between_append before gap after start place]
    exact fun c member => isGap_iff.mp (blank c member)
  · rw [spaced, place]
    cases gap <;> simp

theorem covers_done {before gap : List Char} {column : Nat} (start : column = before.length + 1)
    (blank : ∀ c ∈ gap, isGap c = true) :
    Covers (before ++ gap) column [⟨.endOfLine, "", column + gap.length, !gap.isEmpty⟩] where
  ends := ⟨[], _, rfl, rfl, by simp only [List.length_append]; omega, by simp⟩
  slice := by simp [between, next]
  empty := by simp
  first := by
    rintro t others same
    cases same
    rw [← List.append_nil (before ++ gap)]
    exact follows_of_gap before [] start blank rfl rfl
  following := by
    rintro ahead s t others same
    have length := congrArg List.length same
    simp only [List.length_append, List.length_cons, List.length_nil] at length
    omega
  comment := by
    rintro ahead t others content same comment
    have member : t ∈ ahead ++ t :: others := by simp
    rw [← same, List.mem_singleton] at member
    rw [member] at comment
    cases comment

/-- Where no characters are left the line ends. -/
theorem Laid.endOfLine {column : Nat} {tokens : List Token} (laid : Laid column [] tokens) :
    ∃ last, tokens = [last] ∧ last.kind = .endOfLine := by
  generalize none : ([] : List Char) = rest at laid
  cases laid with
  | done => exact ⟨_, rfl, rfl⟩
  | token _ some =>
    rw [eq_comm, List.append_eq_nil_iff, List.append_eq_nil_iff] at none
    exact absurd none.1.2 some

/-- A token before the characters that others cover. -/
theorem Covers.cons {before gap cs rest : List Char} {column : Nat} {kind : TokenKind} {tokens : List Token}
    (start : column = before.length + 1) (blank : ∀ c ∈ gap, isGap c = true) (some : cs ≠ [])
    (visible : kind ≠ .endOfLine)
    (comment : ∀ content, kind = .comment content → rest = [] ∧ ∃ last, tokens = [last] ∧ last.kind = .endOfLine)
    (others : Covers (before ++ gap ++ cs ++ rest) (column + gap.length + cs.length) tokens) :
    Covers (before ++ gap ++ cs ++ rest) column
      (⟨kind, String.ofList cs, column + gap.length, !gap.isEmpty⟩ :: tokens) := by
  have after : next ⟨kind, String.ofList cs, column + gap.length, !gap.isEmpty⟩ = column + gap.length + cs.length := by
    simp [next]
  constructor
  case ends =>
    obtain ⟨ahead, final, rfl, ending, place, inner⟩ := others.ends
    refine ⟨_ :: ahead, final, rfl, ending, place, fun t member => ?_⟩
    rcases List.mem_cons.mp member with rfl | later
    · exact visible
    · exact inner t later
  case slice =>
    intro t member
    rcases List.mem_cons.mp member with rfl | later
    · have slice : between (before ++ gap ++ cs ++ rest) (column + gap.length) (column + gap.length + cs.length) = cs :=
        between_append (before ++ gap) cs rest (by rw [List.length_append]; omega) rfl
      rw [after]
      exact String.toList_ofList.trans slice.symm
    · exact others.slice t later
  case empty =>
    intro t member
    rcases List.mem_cons.mp member with rfl | later
    · simp [visible, some]
    · exact others.empty t later
  case first =>
    rintro t more same
    cases same
    rw [List.append_assoc (before ++ gap)]
    exact follows_of_gap before (cs ++ rest) start blank rfl rfl
  case following =>
    rintro ahead s t more same
    cases ahead with
    | nil =>
      obtain ⟨rfl, rfl⟩ := List.cons.inj same
      rw [after]
      exact others.first t more rfl
    | cons u ahead => exact others.following ahead s t more (List.cons.inj same).2
  case comment =>
    rintro ahead t more content same marked
    cases ahead with
    | nil =>
      obtain ⟨rfl, rfl⟩ := List.cons.inj same
      obtain ⟨rfl, last⟩ := comment content marked
      refine ⟨?_, last⟩
      rw [after, List.append_nil, List.length_append, List.length_append]
      omega
    | cons u ahead => exact others.comment ahead t more content (List.cons.inj same).2 marked

/-- Characters that are cut into gaps and tokens are covered by the tokens. -/
theorem Laid.covers {column : Nat} (before : List Char) {rest : List Char} {tokens : List Token}
    (laid : Laid column rest tokens) (start : column = before.length + 1) : Covers (before ++ rest) column tokens := by
  induction laid generalizing before with
  | done column blank => exact covers_done start blank
  | @token column gap cs rest kind tokens blank some visible last others ih =>
    have covered := ih (before ++ gap ++ cs) (by simp only [List.length_append]; omega)
    have cut : before ++ (gap ++ cs ++ rest) = before ++ gap ++ cs ++ rest := by simp
    rw [cut]
    refine .cons start blank some visible (fun content comment => ?_) covered
    obtain rfl := last content comment
    exact ⟨rfl, others.endOfLine⟩

/-- Only where blanks alone are left the line ends at once. -/
theorem kind_current_scanAll {rules : LexicalRules} {cs : List Char} {column : Nat} {spaced : Bool}
    {tokens : List Token} (scanned : scanAll rules cs column spaced = .ok tokens) :
    (current tokens).kind = .endOfLine ↔ ∀ c ∈ cs, c = ' ' ∨ c = '\t' := by
  fun_induction scanAll rules cs column spaced generalizing tokens with
  | case1 =>
    cases scanned
    simp [current]
  | case2 column spaced c rest blank ih =>
    rw [ih scanned, List.forall_mem_cons, and_iff_right (isGap_iff.mp blank)]
  | case3 column spaced c rest visible ih =>
    obtain ⟨⟨kind, n⟩, taken, read⟩ := bind_eq_ok_iff.mp scanned
    obtain ⟨others, -, made⟩ := bind_eq_ok_iff.mp read
    cases made
    exact iff_of_false (scan_takes taken).2.1 fun blank => visible (isGap_iff.mpr (blank c List.mem_cons_self))

/-- A line has no token but its end exactly if it is blank. -/
theorem kind_current_ofLine {rules : LexicalRules} {line : String} {tokens : List Token}
    (read : ofLine rules line = .ok tokens) :
    (current tokens).kind = .endOfLine ↔ ∀ c ∈ line.toList, c = ' ' ∨ c = '\t' := by
  unfold ofLine at read
  split at read
  · cases read
  · exact kind_current_scanAll read

/-- The tokens of a line cover it. -/
theorem ofLine_covers {rules : LexicalRules} {line : String} {tokens : List Token}
    (read : ofLine rules line = .ok tokens) : Covers line.toList 1 tokens := by
  unfold ofLine at read
  split at read
  · cases read
  · have laid := laid_of_scanAll read [] (by simp) rfl rfl
    exact laid.covers [] rfl

/-- An instruction with a comment. -/
theorem ofLine_covers_commented :
    ∃ tokens, ofLine symbolicRules "  ADD +1;x" = .ok tokens ∧ tokens.length = 5 ∧
      Covers "  ADD +1;x".toList 1 tokens := by
  have read : ofLine symbolicRules "  ADD +1;x" = .ok
      [⟨.identifier "ADD", "ADD", 3, true⟩, ⟨.plus, "+", 7, true⟩, ⟨.number 1, "1", 8, false⟩,
        ⟨.comment "x", ";x", 9, false⟩, ⟨.endOfLine, "", 11, false⟩] := by
    decide +kernel
  exact ⟨_, read, rfl, ofLine_covers read⟩

end WordMachine.Source.Token
