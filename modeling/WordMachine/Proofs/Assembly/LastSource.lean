import WordMachine.Proofs.Assembly.Faithful
import WordMachine.Proofs.Source.Reading

/-!
# What an assembler says of its last source text

An assembler keeps the lines of a source text, an assembly and a failure, and replaces them at different times.
After each text that can be read the three are about that text, whatever it was asked for before. A text with a
numeral that has no value (`Token.Stuck`) ends the work between two of them: there is neither an assembly nor a
failure then, and the lines are still those of the last text that could be read (`superscript_keeps_listing`). Where
a message cannot be written there is no failure either, but the lines are those of the text.
-/
namespace WordMachine

open Source

/-! ## The lines of a file that is read as a whole -/

theorem Source.Line.ofTokens_ok {tokens : List Token} {text file : String} {number : Int} {line : Line}
    (read : (Line.ofTokens tokens text file number).value = .ok line) :
    line.text = text ∧ line.number = number ∧ line.file = file := by
  obtain ⟨⟨content, rest⟩, -, commented⟩ := bind_eq_ok_iff.mp (mapError_eq_ok_iff.mp read)
  obtain ⟨comment, -, made⟩ := bind_eq_ok_iff.mp commented
  cases made
  exact ⟨rfl, rfl, rfl⟩

variable {source file : String} {parsed : ParsedFile Line}

theorem parseSource_byLines (source file : String) :
    ReadByLines symbolicRules symbolicReader source file (parseSource source file).value :=
  readByLines symbolic_reads source file

/-- The line that is read has the text and the number of its result. -/
theorem line?_of_parseSource (read : (parseSource source file).value = .ok parsed) (whole : parsed.errors = [])
    {r : LineResult Line} (member : r ∈ parsed.results) :
    ∃ line, r.line? = some line ∧ line.text = r.text ∧ line.number = r.number := by
  have lines := parseSource_byLines source file
  obtain ⟨reading, made, outcome⟩ := lines.alone parsed read r member
  have unbroken : Text.Unbroken r.text.toList :=
    Text.unbroken_of_mem_lines (lines.texts parsed read ▸ List.mem_map_of_mem member)
  rw [symbolicReader_eq unbroken] at made
  obtain ⟨tokens, -, rfl⟩ := map_eq_ok_iff.mp made
  have clean : r.error? = none := by
    rw [← Option.not_isSome_iff_eq_none]
    intro failed
    obtain ⟨d, error⟩ := Option.isSome_iff_exists.mp failed
    have reported : d ∈ parsed.errors := List.mem_filterMap.mpr ⟨r, member, error⟩
    simp [whole] at reported
  cases value : (Line.ofTokens tokens r.text file r.number).value with
  | error d =>
    simp [LineResult.error?, outcome, Warned.map, value, Except.map] at clean
  | ok line =>
    obtain ⟨text, number, -⟩ := Line.ofTokens_ok value
    exact ⟨line, by simp [LineResult.line?, outcome, Warned.map, value, Except.map], text, number⟩

/-- What is read off the lines is what is read off their results. -/
theorem map_lines_of_parseSource {β : Type} (ofLine : Line → β) (ofResult : LineResult Line → β)
    (agree : ∀ r ∈ parsed.results, ∃ line, r.line? = some line ∧ ofLine line = ofResult r) :
    parsed.lines.map ofLine = parsed.results.map ofResult := by
  rw [ParsedFile.lines, List.map_filterMap, ← List.filterMap_eq_map]
  refine List.filterMap_congr fun r member => ?_
  obtain ⟨line, present, equal⟩ := agree r member
  simp [present, equal]

/-- A file that is read as a whole has a line for each line of its text. -/
theorem texts_of_parseSource (read : (parseSource source file).value = .ok parsed) (whole : parsed.errors = []) :
    parsed.lines.map (·.text) = Text.lines source := by
  rw [← (parseSource_byLines source file).texts parsed read]
  refine map_lines_of_parseSource _ _ fun r member => ?_
  obtain ⟨line, present, text, -⟩ := line?_of_parseSource read whole member
  exact ⟨line, present, text⟩

theorem numbers_of_parseSource (read : (parseSource source file).value = .ok parsed) (whole : parsed.errors = []) :
    parsed.lines.map (·.number) = (List.range' 1 (Text.lines source).length).map Int.ofNat := by
  rw [← (parseSource_byLines source file).numbers parsed read, List.map_map]
  refine map_lines_of_parseSource _ _ fun r member => ?_
  obtain ⟨line, present, -, number⟩ := line?_of_parseSource read whole member
  exact ⟨line, present, number⟩

/-! ## Listings -/

/-- A listing has an entry for each of the lines, in order, with its text. -/
structure Lists (listing : List ListingLine) (lines : List String) : Prop where
  texts : listing.map (·.text) = lines
  numbers : listing.map (·.number) = (List.range' 1 lines.length).map Int.ofNat

theorem lists_failedListing (read : (parseSource source file).value = .ok parsed) :
    Lists (Assembler.failedListing parsed) (Text.lines source) where
  texts := by
    rw [← (parseSource_byLines source file).texts parsed read]
    simp [Assembler.failedListing]
  numbers := by
    rw [← (parseSource_byLines source file).numbers parsed read]
    simp [Assembler.failedListing]

theorem lists_assembled {settings : AssemblySettings} (read : (parseSource source file).value = .ok parsed)
    (whole : parsed.errors = []) :
    Lists (assembled settings parsed.lines file).listing (Text.lines source) := by
  have listed : ∀ {β : Type} (ofListing : ListingLine → β) (ofLine : Line → β),
      (∀ l line here, ofListing (Encoding.listed settings l line here) = ofLine line) →
      (assembled settings parsed.lines file).listing.map ofListing = parsed.lines.map ofLine := by
    intro β ofListing ofLine agree
    conv_rhs => rw [← map_fst_planned settings.origin parsed.lines, List.map_map]
    simp [assembled, agree, Function.comp_def]
  constructor
  case texts =>
    rw [listed (·.text) (·.text) fun _ _ _ => rfl]
    exact texts_of_parseSource read whole
  case numbers =>
    rw [listed (·.number) (·.number) fun _ _ _ => rfl]
    exact numbers_of_parseSource read whole

namespace Assembler

/-! ## One source text -/

/-- What an assembler comes to when it is asked to assemble a source text. -/
inductive Outcome (a : Assembler) (source file : String) : Assembler → Except Refusal Assembly → Prop where
  | unreadable {e : LexError} (stuck : (parseSource source file).value = .error e) :
    Outcome a source file { a with assembly := none, failure := none } (.error (.unreadable e))
  | failed {parsed : ParsedFile Line} (generation : Generation) (errors : List Diagnostic)
      (read : (parseSource source file).value = .ok parsed) :
    Outcome a source file
      { a with parsed, generation, assembly := none, failure := some (parseFailure parsed errors) }
      (.error (.failed (parseFailure parsed errors)))
  | unwritable {parsed : ParsedFile Line} (generation : Generation)
      (read : (parseSource source file).value = .ok parsed) :
    Outcome a source file { a with parsed, generation, assembly := none, failure := none } (.error .unwritable)
  | assembled {parsed : ParsedFile Line} {generation : Generation} {made : Assembly}
      (read : (parseSource source file).value = .ok parsed) (whole : parsed.errors = [])
      (passed : generate a.settings parsed.lines file = generation) (success : generation.outcome = .ok made) :
    Outcome a source file { a with parsed, generation, assembly := some made, failure := none } (.ok made)
  /-- The origin is too long for the message about the assembly. -/
  | unlogged {parsed : ParsedFile Line} {generation : Generation} {made : Assembly}
      (read : (parseSource source file).value = .ok parsed) (whole : parsed.errors = [])
      (passed : generate a.settings parsed.lines file = generation) (success : generation.outcome = .ok made)
      (origin : Text.isWritable a.settings.origin = false) :
    Outcome a source file { a with parsed, generation, assembly := some made, failure := none }
      (.error .unwritable)

/-- What assembling a text comes to, one case for each way out. -/
theorem outcome_of_assemble (a : Assembler) (source file : String) :
    Outcome a source file (a.assemble source file).value.1 (a.assemble source file).value.2 := by
  unfold assemble
  simp only [Warned.map]
  split
  next e stuck => exact .unreadable stuck
  next parsed read =>
    split
    next whole =>
      split
      next made success =>
        have clean := List.isEmpty_iff.mp whole
        cases origin : Text.isWritable a.settings.origin with
        | true => exact .assembled read clean rfl success
        | false => exact .unlogged read clean rfl success origin
      next errors _ => exact .failed _ errors read
      next => exact .unwritable _ read
    next => exact .failed a.generation parsed.errors read

/-! ## All requests -/

/-- What an assembler can be asked for: to assemble a source text, or only to read one. -/
inductive Request where
  | assemble (source file : String)
  | parse (source file : String)
  deriving DecidableEq, Repr

/-- The assembler after a request. Reading a text leaves it as it is. -/
def after (a : Assembler) : Request → Assembler
  | .assemble source file => (a.assemble source file).value.1
  | .parse _ _ => a

def afterAll (a : Assembler) (requests : List Request) : Assembler :=
  requests.foldl after a

/-- The lines of the source text of a request, if it is to be assembled and can be read. -/
def Request.lines? : Request → Option (List String)
  | .assemble source file => if (parseSource source file).value.isOk then some (Text.lines source) else none
  | .parse _ _ => none

/-- The lines of the last source text that was to be assembled and could be read; none before the first. -/
def lastRead (requests : List Request) : List String :=
  (requests.reverse.findSome? Request.lines?).getD []

theorem lastRead_concat (requests : List Request) (r : Request) :
    lastRead (requests ++ [r]) = r.lines?.getD (lastRead requests) := by
  cases lines : r.lines? with
  | none => simp [lastRead, List.reverse_append, lines]
  | some lines => simp [lastRead, List.reverse_append, lines]

theorem lines?_of_error {e : LexError} (stuck : (parseSource source file).value = .error e) :
    (Request.assemble source file).lines? = none := by
  simp [Request.lines?, stuck, Except.isOk, Except.toBool]

theorem lines?_of_ok (read : (parseSource source file).value = .ok parsed) :
    (Request.assemble source file).lines? = some (Text.lines source) := by
  simp [Request.lines?, read, Except.isOk, Except.toBool]

theorem not_stuck_of_ok (read : (parseSource source file).value = .ok parsed) :
    ¬ ∃ line ∈ Text.lines source, Token.Stuck symbolicRules line.toList := by
  intro stuck
  obtain ⟨e, failed⟩ := (parseSource_byLines source file).unread_iff.mpr stuck
  cases read.symm.trans failed

/-- What an assembler would list, with its assembly and without one, are the lines of one source text. -/
structure Keeps (a : Assembler) (lines : List String) : Prop where
  parsed : Lists (a.parsed.elim [] failedListing) lines
  assembly : ∀ made, a.assembly = some made → Lists made.listing lines

variable {a next : Assembler} {lines : List String} {result : Except Refusal Assembly}

/-- Whatever was done last, a listing is of the lines that the assembler keeps. -/
theorem Keeps.lists (keeps : a.Keeps lines) : Lists a.listing lines := by
  have parsed := keeps.parsed
  unfold listing
  split
  next made present => exact keeps.assembly made present
  next p _ present =>
    rw [present] at parsed
    exact parsed
  next _ absent =>
    rw [absent] at parsed
    exact parsed

/-- A source text that can be read replaces what is kept, and no other does. -/
theorem Keeps.of_outcome (keeps : a.Keeps lines) (outcome : Outcome a source file next result) :
    next.Keeps ((Request.assemble source file).lines?.getD lines) := by
  cases outcome with
  | unreadable stuck =>
    rw [lines?_of_error stuck]
    exact ⟨keeps.parsed, fun _ present => by cases present⟩
  | failed generation errors read =>
    rw [lines?_of_ok read]
    exact ⟨lists_failedListing read, fun _ present => by cases present⟩
  | unwritable generation read =>
    rw [lines?_of_ok read]
    exact ⟨lists_failedListing read, fun _ present => by cases present⟩
  | assembled read whole passed success | unlogged read whole passed success =>
    rw [lines?_of_ok read]
    refine ⟨lists_failedListing read, fun made present => ?_⟩
    cases present
    have admitted := fun line member => (isParsed_of_parseSource read line member).admitted
    obtain ⟨-, rfl⟩ := assembled_of_ok admitted (passed ▸ success)
    exact lists_assembled read whole

theorem Keeps.after (keeps : a.Keeps lines) (r : Request) : (a.after r).Keeps (r.lines?.getD lines) := by
  cases r with
  | assemble source file => exact keeps.of_outcome (outcome_of_assemble a source file)
  | parse source file => exact keeps

/-- After any requests an assembler keeps the lines of the last text that could be read. -/
theorem keeps_afterAll (settings : AssemblySettings) (requests : List Request) :
    ((new settings).afterAll requests).Keeps (lastRead requests) := by
  induction requests using List.reverseRecOn with
  | nil => exact ⟨⟨rfl, rfl⟩, fun _ present => by cases present⟩
  | append_singleton requests r ih =>
    rw [lastRead_concat, afterAll, List.foldl_concat]
    exact ih.after r

/-! ## The last source text -/

/-- What an assembler says of a source text that it was asked to assemble, by what came of it; `before` are the
lines of the last text before it that could be read. -/
structure Describes (a : Assembler) (before : List String) (source : String)
    (result : Except Refusal Assembly) : Prop where
  assembled : ∀ made, result = .ok made → a.assembly = some made ∧ a.hasErrors = false
  failed : ∀ failure, result = .error (.failed failure) →
    a.assembly = none ∧ a.labels = [] ∧ a.hasErrors = true ∧ a.errorReport = failure.diagnostic.message
  listed : (∀ e, result ≠ .error (.unreadable e)) → Lists a.listing (Text.lines source)
  unreadable : ∀ e, result = .error (.unreadable e) →
    a.assembly = none ∧ a.labels = [] ∧ a.hasErrors = false ∧ Lists a.listing before
  unreadable_iff : (∃ e, result = .error (.unreadable e)) ↔
    ∃ line ∈ Text.lines source, Token.Stuck symbolicRules line.toList
  unwritable : result = .error .unwritable → a.hasErrors = false ∧
    (a.assembly = none ∧ a.labels = [] ∨ Text.isWritable a.settings.origin = false)

/-- An assembler tells what its last request came to. -/
theorem describes_of_outcome (keeps : a.Keeps lines) (outcome : Outcome a source file next result) :
    next.Describes lines source result := by
  have lists := (keeps.of_outcome outcome).lists
  cases outcome with
  | @unreadable e stuck =>
    rw [lines?_of_error stuck] at lists
    constructor
    case assembled | failed | unwritable => nofun
    case listed => exact fun other => absurd rfl (other e)
    case unreadable => exact fun _ _ => ⟨rfl, rfl, rfl, lists⟩
    case unreadable_iff =>
      exact iff_of_true ⟨e, rfl⟩ ((parseSource_byLines source file).unread_iff.mp ⟨e, stuck⟩)
  | failed generation errors read =>
    rw [lines?_of_ok read] at lists
    constructor
    case assembled | unreadable | unwritable => nofun
    case failed =>
      intro failure same
      cases same
      exact ⟨rfl, rfl, rfl, rfl⟩
    case listed => exact fun _ => lists
    case unreadable_iff => exact iff_of_false nofun (not_stuck_of_ok read)
  | unwritable generation read =>
    rw [lines?_of_ok read] at lists
    constructor
    case assembled | failed | unreadable => nofun
    case listed => exact fun _ => lists
    case unreadable_iff => exact iff_of_false nofun (not_stuck_of_ok read)
    case unwritable => exact fun _ => ⟨rfl, Or.inl ⟨rfl, rfl⟩⟩
  | assembled read whole passed success =>
    rw [lines?_of_ok read] at lists
    constructor
    case assembled =>
      intro made same
      cases same
      exact ⟨rfl, rfl⟩
    case failed | unreadable | unwritable => nofun
    case listed => exact fun _ => lists
    case unreadable_iff => exact iff_of_false nofun (not_stuck_of_ok read)
  | unlogged read whole passed success origin =>
    rw [lines?_of_ok read] at lists
    constructor
    case assembled | failed | unreadable => nofun
    case listed => exact fun _ => lists
    case unreadable_iff => exact iff_of_false nofun (not_stuck_of_ok read)
    case unwritable => exact fun _ => ⟨rfl, Or.inr origin⟩

theorem afterAll_parse (a : Assembler) (texts : List (String × String)) :
    a.afterAll (texts.map fun (source, file) => .parse source file) = a := by
  induction texts with
  | nil => rfl
  | cons first rest ih => exact ih

/-- Whatever an assembler was asked for before a source text, and whatever it only reads after it, it describes
that text. -/
theorem describes_last_source (settings : AssemblySettings) (earlier : List Request) (source file : String)
    (later : List (String × String)) :
    ((new settings).afterAll
      (earlier ++ .assemble source file :: later.map fun (text, name) => .parse text name)).Describes
      (lastRead earlier) source (((new settings).afterAll earlier).assemble source file).value.2 := by
  have now : (new settings).afterAll
      (earlier ++ .assemble source file :: later.map fun (text, name) => .parse text name) =
      (((new settings).afterAll earlier).assemble source file).value.1 := by
    rw [afterAll, List.foldl_append, List.foldl_cons]
    exact afterAll_parse _ later
  rw [now]
  exact describes_of_outcome (keeps_afterAll settings earlier) (outcome_of_assemble _ source file)

/-- After a text that cannot be read an assembler has no errors to show, and lists the text before it. -/
theorem superscript_keeps_listing :
    let before := (new {}).afterAll [.assemble "+1" "one"]
    let a := before.afterAll [.assemble "²" "two"]
    (before.assemble "²" "two").value.2.isOk = false ∧ a.assembly = none ∧ a.hasErrors = false ∧
    a.listing.map (·.text) = ["+1"] ∧ Text.lines "²" = ["²"] := by
  decide +kernel

end Assembler

end WordMachine
