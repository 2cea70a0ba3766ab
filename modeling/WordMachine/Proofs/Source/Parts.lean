import WordMachine.Proofs.Source.Lexing

/-!
# Lines made of parts

A line is put together from parts with a blank between each two, and perhaps a comment at its end. What follows
a part of a line is a blank or nothing (`Parted`), and no token goes on over either; so every part has the tokens
that it has alone (`Part`), and the tokens of the line are those of its parts (`InParts`).
-/
namespace WordMachine.Source.Token

/-- What may follow a part of a line: a blank, or nothing. -/
def Parted (rest : List Char) : Prop :=
  ∀ c ∈ rest.head?, c = ' '

theorem parted_blank (rest : List Char) : Parted (' ' :: rest) := by
  intro c first
  simpa [eq_comm] using first

theorem Parted.endsNumeral {rest : List Char} (parted : Parted rest) : EndsNumeral rest := by
  intro c first
  rw [parted c first]
  decide

theorem Parted.endsName {rest : List Char} (parted : Parted rest) : EndsName rest := by
  intro c first
  rw [parted c first]
  rfl

theorem endsNumeral_cons {c : Char} {rest : List Char} (other : Text.isDigit c = false ∧ c ≠ '.' ∧ c ≠ '@') :
    EndsNumeral (c :: rest) := by
  intro d first
  obtain rfl : c = d := by simpa using first
  exact other

theorem endsName_cons {c : Char} {rest : List Char} (other : c.isAlphanum = false) : EndsName (c :: rest) := by
  intro d first
  obtain rfl : c = d := by simpa using first
  exact other

/-! ## One part -/

/-- The kinds of tokens without gaps between them; `spaced` says whether one stands before the first. -/
def joined (spaced : Bool) : List TokenKind → List (TokenKind × Bool)
  | [] => []
  | first :: others => (first, spaced) :: others.map (·, false)

/-- After another token and without a gap, the characters are tokens of these kinds. -/
structure Continues (cs : List Char) (kinds : List TokenKind) : Prop where
  spells : ∀ {rest : List Char} {more : List (TokenKind × Bool)}, Parted rest → Spells rest false more →
    Spells (cs ++ rest) false (kinds.map (·, false) ++ more)
  single : ∀ c ∈ cs, c ≠ '\n' ∧ c ≠ '\r'

/-- Wherever they stand as a part of a line, the characters are tokens of these kinds, without gaps. -/
structure Part (cs : List Char) (kinds : List TokenKind) : Prop where
  spells : ∀ {rest : List Char} {more : List (TokenKind × Bool)} (spaced : Bool), Parted rest →
    Spells rest false more → Spells (cs ++ rest) spaced (joined spaced kinds ++ more)
  single : ∀ c ∈ cs, c ≠ '\n' ∧ c ≠ '\r'

theorem Continues.nil : Continues [] [] :=
  ⟨fun _ spells => spells, nofun⟩

section

variable {cs others : List Char} {kind : TokenKind} {kinds : List TokenKind}

/-- A token and what goes on after it. -/
theorem Part.cons (first : ∀ rest, Parted rest → Spell cs kind (others ++ rest)) (later : Continues others kinds)
    (single : ∀ c ∈ cs, c ≠ '\n' ∧ c ≠ '\r') : Part (cs ++ others) (kind :: kinds) where
  spells spaced parted spells := by
    rw [List.append_assoc]
    exact .token cs spaced (first _ parted) (later.spells parted spells)
  single := List.forall_mem_append.mpr ⟨single, later.single⟩

/-- One token is a part. -/
theorem Part.one (alone : ∀ rest, Parted rest → Spell cs kind rest) (single : ∀ c ∈ cs, c ≠ '\n' ∧ c ≠ '\r') :
    Part cs [kind] where
  spells spaced parted spells := .token cs spaced (alone _ parted) spells
  single := single

/-- A character that is a token by itself. -/
theorem Part.mark {c : Char} (alone : ∀ rest, Spell [c] kind rest) (single : c ≠ '\n' ∧ c ≠ '\r') : Part [c] [kind] :=
  .one (fun rest _ => alone rest) (by simpa using single)

theorem Part.continues (part : Part cs (kind :: kinds)) : Continues cs (kind :: kinds) :=
  ⟨fun parted spells => part.spells false parted spells, part.single⟩

end

/-! ## All parts -/

def lineOf (texts : List (List Char)) (comment : Option String) : List Char :=
  [' '].intercalate (texts ++ comment.toList.map (';' :: ·.toList))

/-- The last part of a line without a comment has nothing after it, any other part a blank. -/
theorem lineOf_cons (cs : List Char) (texts : List (List Char)) (comment : Option String) :
    (texts = [] ∧ comment = none ∧ lineOf (cs :: texts) comment = cs) ∨
      lineOf (cs :: texts) comment = cs ++ ' ' :: lineOf texts comment := by
  by_cases last : texts ++ comment.toList.map (';' :: ·.toList) = []
  · obtain ⟨rfl, plain⟩ := List.append_eq_nil_iff.mp last
    obtain rfl : comment = none := by simpa using plain
    exact Or.inl ⟨rfl, rfl, by simp [lineOf]⟩
  · obtain ⟨next, others, split⟩ := List.exists_cons_of_ne_nil last
    refine Or.inr ?_
    rw [lineOf, lineOf, List.cons_append, split, List.intercalate_cons_cons]
    simp

/-- The tokens after the parts of a line: the comment, if there is one, and the end of the line. -/
inductive Closing : Option String → List Token → Prop
  | plain {last : Token} (ends : last.kind = .endOfLine) : Closing none [last]
  | commented {mark last : Token} {comment : String} (marked : mark.kind = .comment comment)
      (ends : last.kind = .endOfLine) : Closing (some comment) [mark, last]

/-- The tokens of a line: for each part tokens of its kinds, with gaps before the parts but not inside them.
`spaced` says whether there is a gap before the first part. -/
inductive InParts (comment : Option String) : Bool → List (List TokenKind) → List Token → Prop
  | closing (spaced : Bool) {rest : List Token} (closing : Closing comment rest) :
    InParts comment spaced [] rest
  | part {spaced : Bool} {kinds : List TokenKind} {more : List (List TokenKind)} {front rest : List Token}
      (tokens : front.map (fun t => (t.kind, t.spaceBefore)) = joined spaced kinds)
      (others : InParts comment true more rest) : InParts comment spaced (kinds :: more) (front ++ rest)

theorem Closing.ne_nil {comment : Option String} {rest : List Token} (closing : Closing comment rest) :
    rest ≠ [] := by
  cases closing <;> simp

theorem InParts.ne_nil {comment : Option String} {spaced : Bool} {kinds : List (List TokenKind)}
    {tokens : List Token} (inParts : InParts comment spaced kinds tokens) : tokens ≠ [] := by
  induction inParts with
  | closing spaced closing => exact closing.ne_nil
  | part tokens others ih => exact List.append_ne_nil_of_right_ne_nil _ ih

/-- The parts of a line and its comment spell their tokens. -/
theorem exists_spells {texts : List (List Char)} {kinds : List (List TokenKind)}
    (parts : List.Forall₂ Part texts kinds) (comment : Option String) (spaced : Bool) :
    ∃ all, Spells (lineOf texts comment) spaced all ∧
      ∀ tokens : List Token, tokens.map (fun t => (t.kind, t.spaceBefore)) = all →
        InParts comment spaced kinds tokens := by
  induction parts generalizing spaced with
  | nil =>
    cases comment with
    | none =>
      refine ⟨[(.endOfLine, spaced)], .done spaced, fun tokens same => ?_⟩
      obtain ⟨last, rfl, ends⟩ := List.map_eq_singleton_iff.mp same
      exact .closing spaced (.plain (congrArg Prod.fst ends))
    | some comment =>
      have whole : lineOf [] (some comment) = (';' :: comment.toList) ++ [] := by simp [lineOf]
      refine ⟨[(.comment comment, spaced), (.endOfLine, false)], ?_, fun tokens same => ?_⟩
      · have mark := spell_comment comment.toList
        rw [String.ofList_toList] at mark
        rw [whole]
        exact .token _ spaced mark (.done false)
      · obtain ⟨mark, _, rfl, marked, same⟩ := List.map_eq_cons_iff.mp same
        obtain ⟨last, rfl, ends⟩ := List.map_eq_singleton_iff.mp same
        exact .closing spaced (.commented (congrArg Prod.fst marked) (congrArg Prod.fst ends))
  | @cons cs kinds texts more part others ih =>
    rcases lineOf_cons cs texts comment with ⟨rfl, rfl, last⟩ | followed
    · cases others
      have last_part : Parted [] := nofun
      have spells := part.spells spaced last_part (.done false)
      rw [List.append_nil] at spells
      refine ⟨_, last ▸ spells, fun tokens same => ?_⟩
      obtain ⟨front, rest, rfl, mine, later⟩ := List.map_eq_append_iff.mp same
      obtain ⟨final, rfl, ends⟩ := List.map_eq_singleton_iff.mp later
      exact .part mine (.closing true (.plain (congrArg Prod.fst ends)))
    · obtain ⟨all, spells, inParts⟩ := ih true
      refine ⟨_, followed ▸ part.spells spaced (parted_blank _) (.gap spells), fun tokens same => ?_⟩
      obtain ⟨front, rest, rfl, mine, later⟩ := List.map_eq_append_iff.mp same
      exact .part mine (inParts rest later)

theorem single_lineOf {texts : List (List Char)} {kinds : List (List TokenKind)}
    (parts : List.Forall₂ Part texts kinds) {comment : Option String}
    (single : ∀ text ∈ comment, ∀ c ∈ text.toList, c ≠ '\n' ∧ c ≠ '\r') :
    ∀ c ∈ lineOf texts comment, c ≠ '\n' ∧ c ≠ '\r' := by
  induction parts with
  | nil =>
    cases comment with
    | none => simp [lineOf]
    | some comment =>
      have whole : lineOf [] (some comment) = ';' :: comment.toList := by simp [lineOf]
      rw [whole, List.forall_mem_cons]
      exact ⟨by decide, single comment rfl⟩
  | @cons cs kinds texts more part others ih =>
    rcases lineOf_cons cs texts comment with ⟨-, -, last⟩ | followed
    · rw [last]
      exact part.single
    · rw [followed, List.forall_mem_append, List.forall_mem_cons]
      exact ⟨part.single, by decide, ih⟩

/-- The tokens of a line are those of its parts. -/
theorem ofLine_of_parts {texts : List (List Char)} {kinds : List (List TokenKind)} {comment : Option String}
    {text : String} (parts : List.Forall₂ Part texts kinds)
    (single : ∀ text ∈ comment, ∀ c ∈ text.toList, c ≠ '\n' ∧ c ≠ '\r')
    (characters : text.toList = lineOf texts comment) :
    ∃ tokens, ofLine symbolicRules text = .ok tokens ∧ InParts comment false kinds tokens := by
  obtain ⟨all, spells, inParts⟩ := exists_spells parts comment false
  obtain ⟨tokens, read, same⟩ := spells.scanAll 1
  have unbroken : '\n' ∉ text.toList := fun member =>
    (single_lineOf parts single '\n' (characters ▸ member)).1 rfl
  refine ⟨tokens, ?_, inParts tokens same⟩
  rw [ofLine, if_neg (by simpa using unbroken), characters, read]

end WordMachine.Source.Token
