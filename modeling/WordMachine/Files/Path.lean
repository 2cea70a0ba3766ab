/-!
Names of files. A path is relative, or starts at the root; empty names and single dots are left out when
a path is read, and double dots stay, since what they mean depends on the directories they lead out of.
-/
namespace WordMachine.Files

/-- A path: what it starts with, and the names it consists of. -/
structure Path where
  /-- Empty, or one or two slashes. -/
  root : String := ""
  names : List String
  deriving DecidableEq, Repr

namespace Path

/-- The root that a text starts with. Exactly two slashes are a root of their own. -/
def rootOf (cs : List Char) : String :=
  match (cs.takeWhile (· == '/')).length with
  | 0 => ""
  | 2 => "//"
  | _ => "/"

def ofText (text : String) : Path :=
  { root := rootOf text.toList
    names := (text.splitOn "/").filter fun name => !name.isEmpty && name != "." }

/-- The path as text; a single dot for the directory where relative paths start. -/
def text (p : Path) : String :=
  if p.names.isEmpty && p.root.isEmpty then "." else p.root ++ "/".intercalate p.names

/-- The last name; empty if there is none. -/
def name (p : Path) : String :=
  p.names.getLastD ""

def parent (p : Path) : Path :=
  { p with names := p.names.dropLast }

/-- The last name without its suffix: the last dot and what follows it. A dot at either end of a name
starts no suffix. -/
def stem (p : Path) : String :=
  let reversed := p.name.toList.reverse
  let suffix := reversed.takeWhile (· != '.')
  let before := reversed.drop (suffix.length + 1)
  if suffix.isEmpty || before.isEmpty then p.name else String.ofList before.reverse

def child (p : Path) (name : String) : Path :=
  { p with names := p.names ++ [name] }

end Path

end WordMachine.Files
