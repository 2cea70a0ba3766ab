import WordMachine.Files.Tree
import WordMachine.Proofs.Results

/-!
# Trees that grow

A command makes directories and writes files, and takes nothing away. So a path that names a place goes on to name it
(`Extends.place`), a directory that is made changes nothing that is there (`Grows`), and a file that is written changes
the one place that it names (`Writes`). Of results that are written one after the other the last one at a place is
there in the end (`Receives.held`), and a file that no result goes to is as before (`Receives.kept`).
-/
namespace WordMachine.Files

namespace FileTree

variable {t t' t'' : FileTree} {p : Path}

/-! ## Entries -/

theorem lookup_map_snd {α β : Type} [BEq α] [LawfulBEq α] (f : α → β → β) (key : α) (entries : List (α × β)) :
    (entries.map fun entry => (entry.1, f entry.1 entry.2)).lookup key = (entries.lookup key).map (f key) := by
  induction entries with
  | nil => rfl
  | cons entry rest ih =>
    obtain ⟨other, old⟩ := entry
    rw [List.map_cons, List.lookup_cons, List.lookup_cons]
    cases same : key == other with
    | true => simp [beq_iff_eq.mp same]
    | false => simpa using ih

/-- What is put at a place is there, and nothing else changes. -/
theorem at?_put {place : Route} (free : isFixed place = false) (entry : Entry) (other : Route) :
    (t.put place entry).at? other = if other = place then some entry else t.at? other := by
  by_cases fixed : isFixed other = true
  · have apart : other ≠ place := by
      rintro rfl
      cases fixed.symm.trans free
    simp [at?, fixed, apart]
  · simp only [at?, fixed, Bool.false_eq_true, if_false, put]
    split
    next there =>
      dsimp only
      rw [lookup_map_snd fun other old => if other == place then entry else old]
      by_cases same : other = place
      · subst same
        obtain ⟨old, found⟩ := Option.isSome_iff_exists.mp there
        simp [found]
      · simp [same]
    next missing =>
      dsimp only
      rw [List.lookup_append]
      by_cases same : other = place
      · subst same
        simp [Option.not_isSome_iff_eq_none.mp missing]
      · have alone : [(place, entry)].lookup other = none := by
          rw [List.lookup_cons, beq_false_of_ne same]
          rfl
        rw [alone, if_neg same, Option.or_none]

theorem isFixed_of_at? {place : Route} (other : t.at? place ≠ some .directory) : isFixed place = false := by
  rw [← Bool.not_eq_true]
  intro fixed
  simp [at?, fixed] at other

/-! ## Directories that stay -/

/-- Every directory of the one tree is one of the other. -/
def Extends (t t' : FileTree) : Prop :=
  ∀ place, t.at? place = some .directory → t'.at? place = some .directory

theorem Extends.refl (t : FileTree) : Extends t t :=
  fun _ there => there

theorem Extends.trans (first : Extends t t') (second : Extends t' t'') : Extends t t'' :=
  fun place there => second place (first place there)

def entered (here : Route) (name : String) : Route :=
  if name = "" ∨ name = "." then here else if name = ".." then outside here else here ++ [name]

theorem walk_cons_eq_ok_iff {path name : String} {rest : List String} {here place : Route} :
    t.walk path here (name :: rest) = .ok place ↔ t.at? here = some .directory ∧
      name.utf8ByteSize ≤ maxNameBytes ∧ t.walk path (entered here name) rest = .ok place := by
  rw [walk, entered]
  cases there : t.at? here with
  | none => simp
  | some entry =>
    cases entry with
    | file content => simp
    | directory =>
      dsimp only
      split
      next long => simp [Nat.not_le_of_lt long]
      next short =>
        simp only [Nat.le_of_not_lt short, true_and]
        split
        · rfl
        · split <;> rfl

/-- The names of a path lead to the same place as before. -/
theorem Extends.walk (grown : Extends t t') {path : String} {names : List String} {here place : Route}
    (found : t.walk path here names = .ok place) : t'.walk path here names = .ok place := by
  induction names generalizing here with
  | nil => exact found
  | cons name rest ih =>
    obtain ⟨directory, short, found⟩ := walk_cons_eq_ok_iff.mp found
    exact walk_cons_eq_ok_iff.mpr ⟨grown here directory, short, ih found⟩

/-- A path that names a place names the same one when there are more directories. -/
theorem Extends.place (grown : Extends t t') {place : Route} (found : t.place p = .ok place) :
    t'.place p = .ok place := by
  unfold FileTree.place route at found ⊢
  split at found
  · cases found
  next short =>
    rw [if_neg short]
    exact grown.walk found

/-! ## Entries that stay -/

/-- Everything in the one tree is in the other one too. -/
def Grows (t t' : FileTree) : Prop :=
  ∀ place entry, t.at? place = some entry → t'.at? place = some entry

theorem Grows.refl (t : FileTree) : Grows t t :=
  fun _ _ there => there

theorem Grows.trans (first : Grows t t') (second : Grows t' t'') : Grows t t'' :=
  fun place entry there => second place entry (first place entry there)

theorem Grows.extends (grown : Grows t t') : Extends t t' :=
  fun place there => grown place .directory there

/-- A directory is made where nothing was. -/
theorem grows_of_makeDirectory (made : t.makeDirectory p = .ok t') : Grows t t' := by
  obtain ⟨place, -, put⟩ := bind_eq_ok_iff.mp made
  split at put
  · cases put
  next missing =>
    cases put
    have free : t.at? place = none := Option.not_isSome_iff_eq_none.mp missing
    intro other entry there
    have apart : other ≠ place := by
      rintro rfl
      cases free.symm.trans there
    have unfixed : isFixed place = false := isFixed_of_at? (t := t) (by simp [free])
    rw [at?_put unfixed, if_neg apart, there]

/-- A directory that cannot be made for another reason than that the one around it is missing. -/
theorem makeDirectories_of_error {e : FileError} (failed : t.makeDirectory p = .error e)
    (other : ∀ path, e = .missing path → False) :
    t.makeDirectories p = if t.isDirectory p then .ok t else .error e := by
  rw [makeDirectories, failed]
  split
  next made => cases made
  next missing => exact (other _ (Except.error.inj missing)).elim
  next same => rw [Except.error.inj same]

/-- Whatever directories are made, nothing else changes. -/
theorem grows_of_makeDirectories (made : t.makeDirectories p = .ok t') : Grows t t' := by
  induction p using makeDirectories.induct t generalizing t' with
  | case1 p here first =>
    rw [makeDirectories, first] at made
    cases made
    exact grows_of_makeDirectory first
  | case2 p path missing none =>
    rw [makeDirectories, missing] at made
    simp [none] at made
  | case3 p path missing some ih =>
    rw [makeDirectories, missing] at made
    dsimp only at made
    rw [dif_neg some] at made
    obtain ⟨around, outer, made⟩ := bind_eq_ok_iff.mp made
    have grown := ih outer
    split at made
    next here inner =>
      cases made
      exact grown.trans (grows_of_makeDirectory inner)
    · cases made
    · split at made
      · cases made
        exact grown
      · cases made
  | case4 p e other failed there =>
    rw [makeDirectories_of_error failed other, if_pos there] at made
    cases made
    exact .refl t
  | case5 p e other failed missing =>
    rw [makeDirectories_of_error failed other, if_neg missing] at made
    cases made

/-! ## Files that are written -/

/-- A file was written: it is at the place that it names, and nothing else changed. -/
structure Writes (t : FileTree) (p : Path) (content : ByteArray) (t' : FileTree) (place : Route) : Prop where
  named : t.place p = .ok place
  grown : Extends t t'
  there : t'.at? place = some (.file content)
  others : ∀ other, other ≠ place → t'.at? other = t.at? other

/-- Writing a file changes one place and nothing else. -/
theorem exists_writes {content : ByteArray} (wrote : t.write p content = .ok t') :
    ∃ place, Writes t p content t' place := by
  obtain ⟨place, named, put⟩ := bind_eq_ok_iff.mp wrote
  split at put
  · cases put
  next other =>
    cases put
    have free := isFixed_of_at? other
    refine ⟨place, named, fun here directory => ?_, ?_, fun here apart => ?_⟩
    · have apart : here ≠ place := by
        rintro rfl
        exact other directory
      rw [at?_put free, if_neg apart, directory]
    · rw [at?_put free, if_pos rfl]
    · rw [at?_put free, if_neg apart]

/-- What is read of a path is the file at the place that it names. -/
theorem read_eq_ok_iff {content : ByteArray} :
    t.read p = .ok content ↔ ∃ place, t.place p = .ok place ∧ t.at? place = some (.file content) := by
  unfold read
  rw [bind_eq_ok_iff]
  refine exists_congr fun place => and_congr_right fun _ => ?_
  split
  next content' there => simp [there, pure, Except.pure]
  next there => simp [there, throw, throwThe, MonadExceptOf.throw]
  next there => simp [there, throw, throwThe, MonadExceptOf.throw]

/-! ## Places in directories -/

/-- A path with one more name leads to a place with that name. -/
theorem exists_walk_concat {path name : String} {names : List String} {here place : Route}
    (proper : name ≠ "" ∧ name ≠ "." ∧ name ≠ "..") (found : t.walk path here (names ++ [name]) = .ok place) :
    ∃ around, place = around ++ [name] := by
  induction names generalizing here with
  | nil =>
    obtain ⟨-, -, found⟩ := walk_cons_eq_ok_iff.mp found
    refine ⟨here, ?_⟩
    rw [← Except.ok.inj found, entered, if_neg (not_or.mpr ⟨proper.1, proper.2.1⟩), if_neg proper.2.2]
  | cons first rest ih =>
    obtain ⟨-, -, found⟩ := walk_cons_eq_ok_iff.mp found
    exact ih found

/-- A file in a directory is at a place with its name. -/
theorem exists_place_child {name : String} {place : Route} (proper : name ≠ "" ∧ name ≠ "." ∧ name ≠ "..")
    (found : t.place (p.child name) = .ok place) : ∃ around, place = around ++ [name] := by
  unfold FileTree.place route at found
  split at found
  · cases found
  · exact exists_walk_concat proper found

end FileTree

/-! ## Results -/

/-- A text for a file. -/
structure Result where
  file : Path
  text : String

namespace FileTree

/-- Results that are written one after the other, each in a directory that is made if it is not there. -/
inductive Receives : FileTree → List Result → FileTree → Prop where
  | none {t : FileTree} : Receives t [] t
  | next {t around t' after : FileTree} {r : Result} {results : List Result}
      (room : t.makeDirectories r.file.parent = .ok around) (wrote : around.write r.file r.text.toUTF8 = .ok t')
      (later : Receives t' results after) : Receives t (r :: results) after

/-- No result goes to the place that a path names. -/
def Spares (t : FileTree) (results : List Result) (p : Path) : Prop :=
  ∀ r ∈ results, t.place r.file ≠ t.place p

/-- Results that come to other places in the end come to other places from the start. -/
theorem Spares.earlier {results : List Result} {place : Route} (spares : Spares t' results p)
    (grown : Extends t t') (named : t.place p = .ok place) : Spares t results p := by
  intro r member same
  apply spares r member
  rw [grown.place named, grown.place (same.trans named)]

section

variable {results others : List Result}

theorem Receives.append (first : Receives t results t') (second : Receives t' others t'') :
    Receives t (results ++ others) t'' := by
  induction first with
  | none => exact second
  | next room wrote _ ih => exact .next room wrote (ih second)

theorem Receives.extends (receives : Receives t results t') : Extends t t' := by
  induction receives with
  | none => exact .refl _
  | next room wrote _ ih =>
    obtain ⟨place, writes⟩ := exists_writes wrote
    exact ((grows_of_makeDirectories room).extends.trans writes.grown).trans ih

/-- Each result has a place in the end. -/
theorem Receives.placed (receives : Receives t results t') :
    ∀ r ∈ results, ∃ place, t'.place r.file = .ok place := by
  induction receives with
  | none => exact nofun
  | next room wrote later ih =>
    obtain ⟨place, writes⟩ := exists_writes wrote
    exact List.forall_mem_cons.mpr ⟨⟨place, later.extends.place (writes.grown.place writes.named)⟩, ih⟩

/-- A file is as before if no result goes to its place. -/
theorem Receives.kept (receives : Receives t results t') {content : ByteArray} (read : t.read p = .ok content)
    (spares : Spares t' results p) : t'.read p = .ok content := by
  induction receives with
  | none => exact read
  | @next t around t' after r results room wrote later ih =>
    obtain ⟨apart, spares⟩ := List.forall_mem_cons.mp spares
    obtain ⟨here, named, there⟩ := read_eq_ok_iff.mp read
    obtain ⟨place, writes⟩ := exists_writes wrote
    have grown := grows_of_makeDirectories room
    have kept := grown.extends.place named
    have final (q : Path) (route : Route) (found : around.place q = .ok route) : after.place q = .ok route :=
      later.extends.place (writes.grown.place found)
    have other : here ≠ place := by
      rintro rfl
      apply apart
      rw [final _ _ writes.named, final _ _ kept]
    apply ih _ spares
    rw [read_eq_ok_iff]
    refine ⟨here, writes.grown.place kept, ?_⟩
    rw [writes.others here other, grown here _ there]

/-- A result is in its file if no later result goes to the same place. -/
theorem Receives.held (receives : Receives t results t') {earlier later : List Result} {r : Result}
    (split : results = earlier ++ r :: later) (spares : Spares t' later r.file) :
    t'.read r.file = .ok r.text.toUTF8 := by
  induction earlier generalizing t results with
  | nil =>
    subst split
    cases receives with
    | next room wrote others =>
      obtain ⟨place, writes⟩ := exists_writes wrote
      have read := read_eq_ok_iff.mpr ⟨place, writes.grown.place writes.named, writes.there⟩
      exact others.kept read spares
  | cons first rest ih =>
    subst split
    cases receives with
    | next _ _ others => exact ih others rfl

end

end FileTree

end WordMachine.Files
