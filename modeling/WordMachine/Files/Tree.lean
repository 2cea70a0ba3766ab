import WordMachine.Files.Path
import WordMachine.Text.Quoted
/-!
Trees of files. Only the part of a tree that a command touches is kept: the files and directories with
their places, which are counted from the directory where relative paths start. That directory, the ones
around it and the root always exist. Names and paths have a limited length.
-/
namespace WordMachine.Files

-- Contents are compared as the core library does it, also where another library has its own way.
attribute [local instance (high)] ByteArray.instDecidableEq

inductive Entry where
  | file (content : ByteArray)
  | directory
  deriving DecidableEq

/-- The way to a place: the names that lead to it. It starts with double dots outside the starting directory, and
with a slash if it is counted from the root. -/
abbrev Route := List String

/-- Why a path cannot be used. -/
inductive FileError where
  | missing (path : String)
  | notDirectory (path : String)
  | isDirectory (path : String)
  | exists (path : String)
  | tooLong (path : String)
  deriving DecidableEq, Repr

def FileError.message : FileError → String
  | .missing path => s!"[Errno 2] No such file or directory: {Text.quoted path}"
  | .notDirectory path => s!"[Errno 20] Not a directory: {Text.quoted path}"
  | .isDirectory path => s!"[Errno 21] Is a directory: {Text.quoted path}"
  | .exists path => s!"[Errno 17] File exists: {Text.quoted path}"
  | .tooLong path => s!"[Errno 36] File name too long: {Text.quoted path}"

structure FileTree where
  entries : List (Route × Entry) := []

namespace FileTree

/-- Whether a place always is a directory. -/
def isFixed (place : Route) : Bool :=
  place.all (· == "..") || place == ["/"]

def at? (t : FileTree) (place : Route) : Option Entry :=
  if isFixed place then some .directory else t.entries.lookup place

def put (t : FileTree) (place : Route) (entry : Entry) : FileTree :=
  if (t.entries.lookup place).isSome then
    ⟨t.entries.map fun (other, old) => (other, if other == place then entry else old)⟩
  else ⟨t.entries ++ [(place, entry)]⟩

def outside (place : Route) : Route :=
  match place.getLast? with
  | none | some ".." => place ++ [".."]
  | some last => if last = "/" then place else place.dropLast

def maxNameBytes : Nat := 255

def maxPathBytes : Nat := 4095

/-- Follows the names of a path from a place. Each name is looked up in a directory that exists; what the
last one leads to need not exist. -/
def walk (t : FileTree) (path : String) (here : Route) : List String → Except FileError Route
  | [] => .ok here
  | name :: rest =>
    match t.at? here with
    | none => .error (.missing path)
    | some (.file _) => .error (.notDirectory path)
    | some .directory =>
      if maxNameBytes < name.utf8ByteSize then .error (.tooLong path)
      else if name = "" ∨ name = "." then walk t path here rest
      else if name = ".." then walk t path (outside here) rest
      else walk t path (here ++ [name]) rest

def start (root : String) : Route :=
  if root.isEmpty then [] else ["/"]

def route (t : FileTree) (path root : String) (names : List String) : Except FileError Route :=
  if maxPathBytes < path.utf8ByteSize then .error (.tooLong path)
  else t.walk path (start root) names

def place (t : FileTree) (p : Path) : Except FileError Route :=
  t.route p.text p.root p.names

/-- What a text names as it stands: a slash or a dot after the name of a file is not left out. -/
def named (t : FileTree) (text : String) : Except FileError Entry := do
  if text.isEmpty then throw (.missing text)
  let place ← t.route text (Path.rootOf text.toList) (text.splitOn "/")
  match t.at? place with
  | some entry => return entry
  | none => throw (.missing text)

def isDirectory (t : FileTree) (p : Path) : Bool :=
  match t.place p with
  | .ok place => t.at? place = some .directory
  | .error _ => false

def read (t : FileTree) (p : Path) : Except FileError ByteArray := do
  match t.at? (← t.place p) with
  | some (.file content) => return content
  | some .directory => throw (.isDirectory p.text)
  | none => throw (.missing p.text)

/-- The tree with a content for a file, which need not exist. -/
def write (t : FileTree) (p : Path) (content : ByteArray) : Except FileError FileTree := do
  let place ← t.place p
  if t.at? place = some .directory then throw (.isDirectory p.text)
  else return t.put place (.file content)

def makeDirectory (t : FileTree) (p : Path) : Except FileError FileTree := do
  let place ← t.place p
  if (t.at? place).isSome then throw (.exists p.text) else return t.put place .directory

def makeDirectories (t : FileTree) (p : Path) : Except FileError FileTree :=
  match t.makeDirectory p with
  | .ok made => .ok made
  | .error (.missing path) =>
    if _h : p.names = [] then .error (.missing path)
    else do
      let around ← t.makeDirectories p.parent
      match around.makeDirectory p with
      | .ok made => return made
      | .error (.missing path) => throw (.missing path)
      | .error e => if around.isDirectory p then return around else throw e
  | .error e => if t.isDirectory p then .ok t else .error e
termination_by p.names.length
decreasing_by
  have := List.length_pos_iff.mpr _h
  simp only [Path.parent, List.length_dropLast]
  omega

def withFile (t : FileTree) (p : Path) (content : ByteArray) : FileTree :=
  let tree := (t.makeDirectories p.parent).toOption.getD t
  (tree.write p content).toOption.getD tree

/-- What the tree has that another one does not have in the same way. -/
def changes (t old : FileTree) : List (Route × Entry) :=
  t.entries.filter fun (place, entry) => old.at? place ≠ some entry

def routeText : Route → String
  | "/" :: names => "/" ++ "/".intercalate names
  | names => "/".intercalate names

end FileTree

end WordMachine.Files
