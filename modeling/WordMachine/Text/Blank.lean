/-!
White space: the characters between the words of an input line, and the ones dropped from the end of
a printed row.
-/
namespace WordMachine.Text

/-- The white space outside ASCII, by code point. -/
private def wideBlanks : List Nat :=
  [0x85, 0xa0, 0x1680, 0x2000, 0x2001, 0x2002, 0x2003, 0x2004, 0x2005, 0x2006, 0x2007, 0x2008,
   0x2009, 0x200a, 0x2028, 0x2029, 0x202f, 0x205f, 0x3000]

/-- A character is white space when it is a space, a separator, or one of the control characters from
tabulation to carriage return and from file separator to unit separator. -/
def isBlank (c : Char) : Bool :=
  let n := c.toNat
  n == 0x20 || (0x09 ≤ n && n ≤ 0x0d) || (0x1c ≤ n && n ≤ 0x1f) || wideBlanks.contains n

/-- The list without the white space at its end. -/
def dropBlankEnd (cs : List Char) : List Char :=
  (cs.reverse.dropWhile isBlank).reverse

/-- The list without the white space at either end. -/
def trimBlanks (cs : List Char) : List Char :=
  dropBlankEnd (cs.dropWhile isBlank)

def trimEnd (s : String) : String :=
  String.ofList (dropBlankEnd s.toList)

/-- The maximal runs of characters that are not white space. -/
def blankSeparated (cs : List Char) : List (List Char) :=
  go cs []
where
  /-- `held` is the word read so far, last character first. -/
  go : List Char → List Char → List (List Char)
    | [], held => if held.isEmpty then [] else [held.reverse]
    | c :: rest, held =>
      if isBlank c then (if held.isEmpty then go rest [] else held.reverse :: go rest [])
      else go rest (c :: held)

end WordMachine.Text
