import WordMachine.Assembly
import WordMachine.Text.Blank
/-!
Listings as text: a heading, a row for each source line with its location and word, and the table of
labels. A line that could not be read is marked, and the reason follows in a row of its own.
-/
namespace WordMachine.Listing

/-- The rows of one source line. A line that fills several locations takes a row for each. -/
def rows (line : ListingLine) : List String :=
  match line.error with
  | some reason => [" *****  " ++ line.text, "        " ++ reason]
  | none =>
    match line.locations with
    | [] => [Text.trimEnd ("                " ++ line.text)]
    | _ =>
      line.locations.mapIdx fun i location =>
        let word := (line.words[i]?).elim "        " Word.octal
        let row := s!"{Text.locationText location}  {word}"
        Text.trimEnd (if i = 0 then row ++ "  " ++ line.text else row)

/-- The heading; there is none without a title. -/
def heading (title : String) : List String :=
  if title.isEmpty then [] else [title, "".pushn '=' (max title.length 40), ""]

/-- The table of labels in alphabetical order; it is left out when there are no labels. -/
def labelRows (labels : List (String × Int)) : List String :=
  if labels.isEmpty then []
  else
    let sorted := labels.mergeSort fun a b => decide (a.1 ≤ b.1)
    ["", "Labels", "".pushn '-' 30] ++ sorted.map fun (name, location) =>
      s!"{Text.padEnd 20 name} = {Text.locationText location}"

def render (lines : List ListingLine) (title : String) (labels : List (String × Int)) : String :=
  "\n".intercalate (heading title ++ lines.flatMap rows ++ labelRows labels) ++ "\n"

end WordMachine.Listing
