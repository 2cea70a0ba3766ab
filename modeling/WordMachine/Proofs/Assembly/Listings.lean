import WordMachine.Proofs.Assembly.LastSource

/-!
# Listings and images

A listing is made line by line in the second pass, or from the results of the lines if there is no assembly. The words
of an assembly are put in the order of their locations, and its image has them beside the literal table. All three
have the same words: what the listing shows of a line is in the image at the location that it shows, and the words of
the assembly are those of the listing in another order (`listing_agrees`).
-/
namespace WordMachine

open Source

/-- A listing shows the one word of a line and its location, and neither if the line has no word. -/
inductive ListingLine.ShowsWord (a : Assembly) (line : Line) (entry : ListingLine) : Prop
  | word (emits : line.emits = true) {location : Int} {w : Word} (locations : entry.locations = [location])
    (words : entry.words = [w]) (found : a.word? location = some w) : ShowsWord a line entry
  | nothing (silent : line.emits = false) (locations : entry.locations = []) (words : entry.words = []) :
    ShowsWord a line entry

def listedWords (listing : List ListingLine) : List (Int × Word) :=
  listing.flatMap fun entry => entry.locations.zip entry.words

/-- The listing of an assembly that was made of these lines. -/
structure ListsAssembly (listing : List ListingLine) (source : String) (lines : List Line) (a : Assembly) :
    Prop where
  entries : Lists listing (Text.lines source)
  texts : lines.map (·.text) = Text.lines source
  numbers : lines.map (·.number) = (List.range' 1 (Text.lines source).length).map Int.ofNat
  shown : List.Forall₂ (ListingLine.ShowsWord a) lines listing
  words : (listedWords listing).Perm (a.words.map fun w => (w.location, w.word))
  once : (listedWords listing).Nodup
  readable : ∀ entry ∈ listing, entry.error = none

/-- The listing of a source text that was not assembled. -/
structure ListsFailure (listing : List ListingLine) (source file : String) : Prop where
  entries : Lists listing (Text.lines source)
  bare : ∀ entry ∈ listing, entry.locations = [] ∧ entry.words = []
  errors : listing.map (·.error) = ((Text.lines source).zipIdx 1).map fun line =>
    (symbolicReader.complaint? file line).map (·.text)

/-- What an assembler lists after a source text, by what came of it. -/
structure ListingAgrees (next : Assembler) (source file : String) (result : Except Refusal Assembly) : Prop where
  assembled : ∀ a, result = .ok a → ∃ parsed, (parseSource source file).value = .ok parsed ∧
    ListsAssembly next.listing source parsed.lines a
  failed : ∀ failure, result = .error (.failed failure) → ListsFailure next.listing source file

/-! ## Assembled sources -/

section

variable {settings : AssemblySettings} {lines : List Line} {file : String}

theorem zip_listed (l : Layout) (line : Line) (here : Int) :
    (Encoding.listed settings l line here).locations.zip (Encoding.listed settings l line here).words =
      (Encoding.wordsOf settings l line here).map fun w => (w.location, w.word) := by
  rw [Encoding.listed, List.zip_map']

/-- The listing of an assembly shows its words. -/
theorem listedWords_perm : (listedWords (assembled settings lines file).listing).Perm
    ((assembled settings lines file).words.map fun w => (w.location, w.word)) := by
  have shown : listedWords (assembled settings lines file).listing =
      ((planned settings.origin lines).flatMap fun entry =>
        Encoding.wordsOf settings (Layout.ofPlan settings lines) entry.1 entry.2).map
          fun w => (w.location, w.word) := by
    rw [listedWords, assembled, List.flatMap_map, List.map_flatMap]
    exact List.flatMap_congr fun _ _ => zip_listed _ _ _
  rw [shown]
  exact ((List.mergeSort_perm _ _).map _).symm

variable (admitted : ∀ line ∈ lines, line.Admitted) (formed : WellFormed settings lines)
include admitted formed

/-- No word is listed twice. -/
theorem nodup_listedWords : (listedWords (assembled settings lines file).listing).Nodup := by
  refine (@listedWords_perm settings lines file).nodup_iff.mpr (List.Nodup.of_map Prod.fst ?_)
  rw [List.map_map]
  exact (locations_perm admitted formed).nodup_iff.mpr formed.locations_distinct

/-- A listing shows the word of a planned line at its place. -/
theorem showsWord_of_planned {line : Line} {here : Int} (place : (line, here) ∈ planned settings.origin lines) :
    ListingLine.ShowsWord (assembled settings lines file) line
      (Encoding.listed settings (Layout.ofPlan settings lines) line here) := by
  cases present : line.content with
  | none =>
    have empty : Encoding.wordsOf settings (Layout.ofPlan settings lines) line here = [] := by
      rw [Encoding.wordsOf, present]
    exact .nothing (by rw [Line.emits, present]; rfl) (by rw [Encoding.listed, empty]; rfl)
      (by rw [Encoding.listed, empty]; rfl)
  | some c =>
    obtain ⟨w, encoded, found⟩ := @word?_of_planned settings lines file admitted formed _ _ _ place present
    have one : Encoding.wordsOf settings (Layout.ofPlan settings lines) line here = [⟨here, w, line.number⟩] := by
      simp [Encoding.wordsOf, present, encoded, Except.toOption]
    exact .word (by rw [Line.emits, present]; rfl) (by rw [Encoding.listed, one]; rfl)
      (by rw [Encoding.listed, one]; rfl) found

/-- Line by line the listing shows what the image has. -/
theorem showsWord_listing : List.Forall₂ (ListingLine.ShowsWord (assembled settings lines file)) lines
    (assembled settings lines file).listing := by
  have shown : List.Forall₂ (ListingLine.ShowsWord (assembled settings lines file))
      ((planned settings.origin lines).map Prod.fst)
      ((planned settings.origin lines).map fun entry =>
        Encoding.listed settings (Layout.ofPlan settings lines) entry.1 entry.2) := by
    rw [List.forall₂_map_left_iff, List.forall₂_map_right_iff, List.forall₂_same]
    exact fun _ place => showsWord_of_planned admitted formed place
  rwa [map_fst_planned] at shown

end

/-! ## Both outcomes -/

/-- A listing of what was not assembled has the complaint about each line beside it. -/
theorem errors_failedListing {source file : String} {parsed : ParsedFile Line}
    (read : (parseSource source file).value = .ok parsed) :
    (Assembler.failedListing parsed).map (·.error) = ((Text.lines source).zipIdx 1).map fun line =>
      (symbolicReader.complaint? file line).map (·.text) := by
  rw [← (parseSource_byLines source file).map_results read, Assembler.failedListing, List.map_map, List.map_map]
  refine List.map_congr_left fun r member => ?_
  simp only [Function.comp_apply, (parseSource_byLines source file).error?_results read member]

/-- Whatever an assembler was used for before: the listing of a source text that is assembled shows each word of the
program once, on its line and as the image has it, and that of a source text that fails shows why the lines that could
not be read could not. -/
theorem listing_agrees (asm : Assembler) (source file : String) :
    ListingAgrees (asm.assemble source file).value.1 source file (asm.assemble source file).value.2 := by
  have outcome := Assembler.outcome_of_assemble asm source file
  generalize (asm.assemble source file).value.1 = next at outcome ⊢
  generalize (asm.assemble source file).value.2 = result at outcome ⊢
  cases outcome with
  | unreadable | unwritable | unlogged => exact ⟨nofun, nofun⟩
  | failed generation errors read =>
    refine ⟨nofun, fun _ _ => ⟨lists_failedListing read, ?_, errors_failedListing read⟩⟩
    intro entry member
    obtain ⟨r, -, rfl⟩ := List.mem_map.mp member
    exact ⟨rfl, rfl⟩
  | @assembled parsed generation made read whole passed success =>
    refine ⟨fun a same => ⟨parsed, read, ?_⟩, nofun⟩
    cases same
    have admitted := fun line member => (isParsed_of_parseSource read line member).admitted
    obtain ⟨formed, rfl⟩ := assembled_of_ok admitted (passed ▸ success)
    constructor
    case entries => exact lists_assembled read whole
    case texts => exact texts_of_parseSource read whole
    case numbers => exact numbers_of_parseSource read whole
    case shown => exact showsWord_listing admitted formed
    case words => exact listedWords_perm
    case once => exact nodup_listedWords admitted formed
    case readable =>
      intro entry member
      obtain ⟨⟨line, here⟩, -, rfl⟩ := List.mem_map.mp member
      rfl

/-- Words at falling locations, with a blank line, a comment and a line with only a label between them. -/
def fallingSource : String :=
  "12 +1\n\n; falls\n0010 TAKE +5\nEND:\n0008 STOP"

/-- The listing keeps the order of the lines, also where one of them cannot be read. -/
theorem fallingSource_listing_agrees :
    (((Assembler.new {}).assemble fallingSource "falls").value.1.listing.map (·.locations) =
      [[12], [], [], [10], [], [8]]) ∧
    ListingAgrees ((Assembler.new {}).assemble fallingSource "falls").value.1 fallingSource "falls"
      ((Assembler.new {}).assemble fallingSource "falls").value.2 ∧
    (((Assembler.new {}).assemble "+1\nADD ]\n+2" "fails").value.1.listing.map (·.error) =
      [none, some "expected an address or constant, found ']'", none]) ∧
    ListingAgrees ((Assembler.new {}).assemble "+1\nADD ]\n+2" "fails").value.1 "+1\nADD ]\n+2" "fails"
      ((Assembler.new {}).assemble "+1\nADD ]\n+2" "fails").value.2 :=
  ⟨by decide +kernel, listing_agrees _ _ _, by decide +kernel, listing_agrees _ _ _⟩

end WordMachine
