import WordMachine.Numeric.Reading
import WordMachine.Text.Lines
/-!
What a program takes from outside: numbers to read, and random numbers. Numbers come from a list, or from
a text that is read line by line and cut into words; the rest of a line stays with the reader, and the
text after it with whoever reads next.
-/
namespace WordMachine

open Numeric

/-- A reader of the numbers in a text: words of the current line, and the text after that line. -/
structure NumberStream where
  pending : List String := []
  text : List Char
  deriving DecidableEq, Repr

inductive Delivery (σ : Type) where
  | number (value : Number) (rest : σ)
  | exhausted (rest : σ)
  /-- A word that is no number; it is used up. -/
  | unreadable (word : String) (rest : σ)
  deriving DecidableEq, Repr

namespace Delivery

def rest {σ : Type} : Delivery σ → σ
  | .number _ rest | .exhausted rest | .unreadable _ rest => rest

def map {σ τ : Type} (f : σ → τ) : Delivery σ → Delivery τ
  | .number value rest => .number value (f rest)
  | .exhausted rest => .exhausted (f rest)
  | .unreadable word rest => .unreadable word (f rest)

end Delivery

namespace NumberStream

def ofText (text : String) : NumberStream :=
  { text := text.toList }

/-- The first line with words on it, cut into words, and the text after it. -/
def nextWords (text : List Char) : List String × List Char :=
  if _h : text = [] then ([], [])
  else
    let (line, after) := Text.takeLine text
    match Text.blankSeparated line with
    | [] => nextWords (Text.takeLine text).2
    | words => (words.map String.ofList, after)
termination_by text.length
decreasing_by exact Text.takeLine_length_lt _h

def deliver (word : String) (rest : NumberStream) : Delivery NumberStream :=
  (Number.read? word).elim (.unreadable word rest) (.number · rest)

/-- The next number. A line is only looked at when the words of the one before are used up. -/
def next (s : NumberStream) : Delivery NumberStream :=
  match s.pending with
  | word :: pending => deliver word { s with pending }
  | [] =>
    match nextWords s.text with
    | ([], text) => .exhausted ⟨[], text⟩
    | (word :: pending, text) => deliver word ⟨pending, text⟩

end NumberStream

inductive Input where
  | none
  | numbers (left : List Number)
  | stream (s : NumberStream)
  deriving DecidableEq, Repr

namespace Input

def next : Input → Delivery Input
  | .none => .exhausted .none
  | .numbers [] => .exhausted (.numbers [])
  | .numbers (n :: left) => .number n (.numbers left)
  | .stream s => s.next.map .stream

def remaining : Input → Nat
  | .numbers left => left.length
  | .none | .stream _ => 0

end Input

/-- Random numbers: a list that starts again at its end. -/
structure Draws where
  all : List Binary64
  left : List Binary64 := all
  deriving DecidableEq, Repr

namespace Draws

/-- The next random number; zero if there is none at all. -/
def next (d : Draws) : Binary64 × Draws :=
  match d.left, d.all with
  | x :: left, _ => (x, { d with left })
  | [], x :: left => (x, { d with left })
  | [], [] => (.zero false, d)

end Draws

/-- Everything a program takes from outside. -/
structure Supply where
  input : Input := .none
  draws : Draws := ⟨[], []⟩
  deriving DecidableEq, Repr

end WordMachine
