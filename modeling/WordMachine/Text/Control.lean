/-!
Terminal control sequences: an escape, an opening bracket, parameters made of digits, semicolons and
question marks, and a letter. They are left out of what is printed.
-/
namespace WordMachine.Text

def isParameter (c : Char) : Bool :=
  c == ';' || c == '?' || c.isDigit

/-- The characters after the control sequence at the start of a list, if one is there. -/
def afterControl? (cs : List Char) : Option (List Char) :=
  match cs with
  | '\x1b' :: '[' :: rest =>
    match rest.dropWhile isParameter with
    | c :: after => if c.isAlpha then some after else none
    | [] => none
  | _ => none

theorem afterControl?_length {cs after : List Char} (h : afterControl? cs = some after) :
    after.length < cs.length := by
  unfold afterControl? at h
  split at h
  · rename_i rest
    split at h
    · rename_i c more heq
      split at h
      · have := (List.dropWhile_suffix isParameter (l := rest)).length_le
        simp_all only [List.length_cons, Option.some.injEq]
        omega
      · simp at h
    · simp at h
  · simp at h

def dropControls (cs : List Char) : List Char :=
  match _h : afterControl? cs with
  | some after => dropControls after
  | none =>
    match cs with
    | [] => []
    | c :: rest => c :: dropControls rest
termination_by cs.length
decreasing_by
  · exact afterControl?_length _h
  · simp

def withoutControls (s : String) : String :=
  String.ofList (dropControls s.toList)

end WordMachine.Text
