/-!
Lines of a text. A line ends at a line feed, a carriage return (with the line feed after it, if there
is one), a vertical tab, a form feed, one of three separators among the control characters, a next
line, or a line or paragraph separator. The end of the text ends the last line, unless it is empty.
-/
namespace WordMachine.Text

def endsLine (c : Char) : Bool :=
  [0x0a, 0x0b, 0x0c, 0x0d, 0x1c, 0x1d, 0x1e, 0x85, 0x2028, 0x2029].contains c.toNat

/-- The lines of a list of characters, `held` being the line read so far, last character first. -/
def linesFrom : List Char → List Char → List (List Char)
  | [], held => if held.isEmpty then [] else [held.reverse]
  | '\r' :: '\n' :: rest, held => held.reverse :: linesFrom rest []
  | c :: rest, held =>
    if endsLine c then held.reverse :: linesFrom rest [] else linesFrom rest (c :: held)

/-- The lines of a text, without what ends them. -/
def lines (s : String) : List String :=
  (linesFrom s.toList []).map String.ofList

/-- Every end of line written as a carriage return becomes a line feed. -/
def unifyLineEnds : List Char → List Char
  | '\r' :: '\n' :: rest => '\n' :: unifyLineEnds rest
  | c :: rest => (if c = '\r' then '\n' else c) :: unifyLineEnds rest
  | [] => []

/-- The characters up to and including the first line feed, and the characters after it. -/
def takeLine : List Char → List Char × List Char
  | [] => ([], [])
  | c :: rest =>
    if c = '\n' then ([c], rest) else let (line, after) := takeLine rest; (c :: line, after)

theorem takeLine_append (cs : List Char) : (takeLine cs).1 ++ (takeLine cs).2 = cs := by
  induction cs with
  | nil => rfl
  | cons c rest ih =>
    unfold takeLine
    split
    · rfl
    · simpa using ih

theorem takeLine_length_lt {cs : List Char} (h : cs ≠ []) : (takeLine cs).2.length < cs.length := by
  cases cs with
  | nil => exact absurd rfl h
  | cons c rest =>
    unfold takeLine
    split
    · simp
    · have := congrArg List.length (takeLine_append rest)
      simp only [List.length_append] at this
      simp only [List.length_cons]
      omega

end WordMachine.Text
