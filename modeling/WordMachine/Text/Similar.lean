/-!
Names that resemble a given one. Two texts are compared by the longest block of characters that they
share, then by the longest blocks before it and after it, and so on; their likeness is the share of
characters inside these blocks. A long text says little by its frequent characters, so these do not
start a block, though they may extend one.
-/
namespace WordMachine.Text

/-- Length of the common beginning of two texts, as far as its characters satisfy `ok`. -/
def commonRun (ok : Char → Bool) : List Char → List Char → Nat
  | x :: xs, y :: ys => if x == y && ok x then commonRun ok xs ys + 1 else 0
  | _, _ => 0

/-- A block shared by two texts: where it starts in each, and its length. -/
structure SharedBlock where
  left : Nat
  right : Nat
  size : Nat

/-- The lengths of the runs of equal characters that end at each character of `b` and at `x`, from the
lengths of those that end one character earlier in both texts; the empty list if there are none. A run has
only characters that satisfy `ok`. -/
def extendRuns (ok : Char → Bool) (x : Char) (b : List Char) (runs : List Nat) : List Nat :=
  if ok x then
    let before := if runs.isEmpty then List.replicate b.length 0 else runs
    List.zipWith (fun y n => if x == y then n + 1 else 0) b (0 :: before)
  else []

/-- The longer of a block and the runs that end at character `i` of the left text; the block if none is
longer, and the first of equally long runs. -/
def longerRun (i : Nat) (runs : List Nat) (best : SharedBlock) : SharedBlock :=
  runs.zipIdx.foldl (fun best (size, j) =>
    if best.size < size then ⟨i + 1 - size, j + 1 - size, size⟩ else best) best

/-- The longest run that starts in `a`, whose first character is character `i` of the left text. -/
def longestRunFrom (ok : Char → Bool) (b : List Char) :
    (a : List Char) → (i : Nat) → (runs : List Nat) → SharedBlock → SharedBlock
  | [], _, _, best => best
  | x :: a, i, runs, best =>
    let runs := extendRuns ok x b runs
    longestRunFrom ok b a (i + 1) runs (longerRun i runs best)

/-- The first of the longest blocks whose characters satisfy `ok`; the empty one at the start if there
is none. -/
def longestRun (ok : Char → Bool) (a b : List Char) : SharedBlock :=
  longestRunFrom ok b a 0 [] ⟨0, 0, 0⟩

/-- The longest block, extended both ways by equal characters of any kind. -/
def longestBlock (ok : Char → Bool) (a b : List Char) : SharedBlock :=
  let run := longestRun ok a b
  let before := commonRun (fun _ => true) (a.take run.left).reverse (b.take run.right).reverse
  let after := commonRun (fun _ => true) (a.drop (run.left + run.size)) (b.drop (run.right + run.size))
  ⟨run.left - before, run.right - before, before + run.size + after⟩

def sharedCount (ok : Char → Bool) (a b : List Char) : Nat :=
  match longestBlock ok a b with
  | ⟨left, right, size⟩ =>
    if _h : size ≠ 0 ∧ left < a.length then
      sharedCount ok (a.take left) (b.take right) + size
        + sharedCount ok (a.drop (left + size)) (b.drop (right + size))
    else 0
termination_by a.length
decreasing_by
  · simp only [List.length_take]; omega
  · simp only [List.length_drop]; omega

/-- Characters that start no block in a text: in one of two hundred characters or more, those that make
up over a hundredth of it. -/
def frequentCharacters (text : List Char) : List Char :=
  if text.length < 200 then []
  else text.eraseDups.filter fun c => text.length / 100 + 1 < text.count c

/-- Likeness of a name to a wanted text, as numerator and denominator. -/
def likeness (wanted name : List Char) : Nat × Nat :=
  let total := name.length + wanted.length
  if total = 0 then (1, 1)
  else
    let frequent := frequentCharacters wanted
    (2 * sharedCount (fun c => !frequent.contains c) name wanted, total)

/-- The names most like the wanted text, at most three, each at least three fifths like it: the best
first, and of equally good ones the greater name first. -/
def closeMatches (wanted : String) (names : List String) : List String :=
  let scored := names.map fun name => (likeness wanted.toList name.toList, name)
  let close := scored.filter fun ((shared, total), _) => 3 * total ≤ 5 * shared
  let ranked := close.mergeSort fun ((s, t), x) ((s', t'), y) =>
    s' * t < s * t' || (s' * t == s * t' && !decide (x < y))
  (ranked.take 3).map (·.2)

end WordMachine.Text
