import WordMachine.Proofs.Source.Commented
import WordMachine.Proofs.Source.Reading

/-!
# Source texts with more comments and blank lines

A source text is annotated when comments are put at the ends of some of its lines and lines without a word, with or
without a comment, between them. If all of its lines could be read, all lines of the annotated text can, and they
are the same lines with silent ones between them.
-/
namespace WordMachine

/-- Spaces and tabs, and perhaps a comment. -/
def Text.Wordless (text : String) : Prop :=
  ∃ gap, (∀ c ∈ gap, c = ' ' ∨ c = '\t') ∧ (text.toList = gap ∨ ∃ comment, text.toList = gap ++ ';' :: comment)

/-- The second list of lines is the first with comments put at the ends of lines, and wordless lines between
them. -/
inductive Text.Annotated : List String → List String → Prop
  | nil : Annotated [] []
  | kept (text : String) {texts texts' : List String} (others : Annotated texts texts') :
    Annotated (text :: texts) (text :: texts')
  | commented (text comment : String) {texts texts' : List String} (others : Annotated texts texts') :
    Annotated (text :: texts) ((text ++ ";" ++ comment) :: texts')
  | inserted {text : String} (wordless : Wordless text) {texts texts' : List String}
      (others : Annotated texts texts') : Annotated texts (text :: texts')

namespace Source

open Token Text

/-- The second list of lines is the first, but for comments and places in the file, with silent lines between
them. -/
inductive Padded : List Line → List Line → Prop
  | nil : Padded [] []
  | line {l l' : Line} (agrees : l.Agrees l') {lines lines' : List Line} (others : Padded lines lines') :
    Padded (l :: lines) (l' :: lines')
  | silent {l' : Line} (empty : l'.Silent) {lines lines' : List Line} (others : Padded lines lines') :
    Padded lines (l' :: lines')

/-! ## One text -/

/-- The text is read as the line, with or without a remark. -/
def Line.IsRead (l : Line) (text file : String) (number : Int) : Prop :=
  ∃ warnings, Line.parse text file number = .ok ⟨.ok l, warnings⟩

section

variable {text file : String} {number : Int} {l : Line}

theorem isRead_iff (unbroken : Unbroken text.toList) : l.IsRead text file number ↔
    ∃ tokens, scanAll symbolicRules text.toList 1 false = .ok tokens ∧
      (Line.ofTokens tokens text file number).value = .ok l := by
  have single := single_of_unbroken unbroken
  unfold Line.IsRead Line.parse
  simp only [dropReturns_of_unbroken unbroken, bind_eq_ok_iff, Token.ofLine, List.contains_iff_mem, single, if_false]
  constructor
  · rintro ⟨warnings, tokens, scanned, made⟩
    exact ⟨tokens, scanned, by rw [Except.ok.inj made]⟩
  · rintro ⟨tokens, scanned, made⟩
    exact ⟨_, tokens, scanned, by rw [← made]; rfl⟩

/-- The text of a line is read the same wherever it stands in the file. -/
theorem isRead_elsewhere (unbroken : Unbroken text.toList) (read : l.IsRead text file number) (file' : String)
    (number' : Int) : ∃ l', l'.IsRead text file' number' ∧ l.Agrees l' := by
  obtain ⟨tokens, scanned, made⟩ := (isRead_iff unbroken).mp read
  obtain ⟨l', made', agrees⟩ := ofTokens_elsewhere made text file' number'
  exact ⟨l', (isRead_iff unbroken).mpr ⟨tokens, scanned, made'⟩, agrees⟩

/-- A comment at its end changes nothing but the comment of the line. -/
theorem isRead_commented (comment : String) (unbroken : Unbroken (text ++ ";" ++ comment).toList)
    (read : l.IsRead text file number) (file' : String) (number' : Int) :
    ∃ l', l'.IsRead (text ++ ";" ++ comment) file' number' ∧ l.Agrees l' := by
  have characters : (text ++ ";" ++ comment).toList = text.toList ++ ';' :: comment.toList := by simp
  have before : Unbroken text.toList := fun c member => unbroken c (by simp [member])
  obtain ⟨tokens, scanned, made⟩ := (isRead_iff before).mp read
  rcases scanAll_mark comment.toList scanned with ⟨tokens', scanned', alike⟩ | broken
  · obtain ⟨-, l', made', agrees⟩ := ofTokens_alike made alike (text ++ ";" ++ comment) file' number'
    exact ⟨l', (isRead_iff unbroken).mpr ⟨tokens', characters ▸ scanned', made'⟩, agrees⟩
  · have whole := (ofTokens_alike made broken text file' number').1
    cases whole

theorem scanAll_gap (rules : LexicalRules) {gap : List Char} (blank : ∀ c ∈ gap, c = ' ' ∨ c = '\t')
    (rest : List Char) (column : Nat) (spaced : Bool) :
    ∃ column' spaced', scanAll rules (gap ++ rest) column spaced = scanAll rules rest column' spaced' := by
  induction gap generalizing column spaced with
  | nil => exact ⟨column, spaced, rfl⟩
  | cons c gap ih =>
    have first : isGap c = true := by rcases blank c (by simp) with rfl | rfl <;> rfl
    obtain ⟨column', spaced', later⟩ := ih (fun d member => blank d (by simp [member])) (column + 1) true
    exact ⟨column', spaced', (scanAll_of_gap _ first column spaced).trans later⟩

/-- Spaces, tabs and a comment are a line without anything. -/
theorem isRead_wordless (unbroken : Unbroken text.toList) (wordless : Wordless text) (file : String) (number : Int) :
    ∃ l : Line, l.IsRead text file number ∧ l.Silent := by
  obtain ⟨gap, blank, rest⟩ := wordless
  obtain ⟨comment, tokens, scanned, closing⟩ : ∃ comment tokens,
      scanAll symbolicRules text.toList 1 false = .ok tokens ∧ Closing comment tokens := by
    rcases rest with bare | ⟨comment, commented⟩
    · obtain ⟨column, spaced, skipped⟩ := scanAll_gap symbolicRules blank [] 1 false
      rw [List.append_nil, scanAll] at skipped
      exact ⟨none, _, bare ▸ skipped, .plain rfl⟩
    · obtain ⟨column, spaced, skipped⟩ := scanAll_gap symbolicRules blank (';' :: comment) 1 false
      obtain ⟨tokens, marked, closing⟩ := scanAll_comment comment column spaced
      exact ⟨_, tokens, commented ▸ skipped.trans marked, closing⟩
  obtain ⟨l, made, silent⟩ := ofTokens_of_closing closing text file number
  exact ⟨l, (isRead_iff unbroken).mpr ⟨tokens, scanned, made⟩, silent⟩

end

/-! ## All texts of a file -/

/-- The texts are read as the lines, the first of which has the number. -/
def AllRead (file : String) (number : Nat) (texts : List String) (lines : List Line) : Prop :=
  ∃ results, (ParsedFile.readFrom symbolicReader file number texts).value = .ok results ∧
    results.filterMap LineResult.error? = [] ∧ results.filterMap LineResult.line? = lines

section

variable {file : String} {number : Nat} {texts : List String} {lines : List Line}

theorem allRead_nil : AllRead file number [] lines ↔ lines = [] := by
  constructor
  · rintro ⟨results, read, -, rfl⟩
    cases read
    rfl
  · rintro rfl
    exact ⟨[], rfl, rfl, rfl⟩

theorem symbolicReader_of_isRead {text : String} {number : Int} {l : Line} (read : l.IsRead text file number) :
    ∃ warnings, symbolicReader text file number = .ok ⟨.ok (some l), warnings⟩ := by
  obtain ⟨warnings, parsed⟩ := read
  exact ⟨warnings, map_eq_ok_iff.mpr ⟨_, parsed, rfl⟩⟩

theorem isRead_of_symbolicReader {text : String} {number : Int}
    {reading : Warned (Except Diagnostic (Option Line))} {line : Option Line}
    (read : symbolicReader text file number = .ok reading) (fine : reading.value = .ok line) :
    ∃ l : Line, l.IsRead text file number ∧ line = some l := by
  obtain ⟨⟨value, warnings⟩, parsed, rfl⟩ := map_eq_ok_iff.mp read
  obtain ⟨l, made, rfl⟩ := map_eq_ok_iff.mp fine
  exact ⟨l, ⟨warnings, made ▸ parsed⟩, rfl⟩

/-- Texts are read as lines one by one. -/
theorem allRead_cons {text : String} : AllRead file number (text :: texts) lines ↔
    ∃ l others, l.IsRead text file number ∧ AllRead file (number + 1) texts others ∧ lines = l :: others := by
  constructor
  · rintro ⟨results, read, clean, rfl⟩
    cases here : symbolicReader text file number with
    | error e =>
      rw [readFrom_of_error here] at read
      cases read
    | ok reading =>
      rw [readFrom_of_ok here] at read
      obtain ⟨others, later, rfl⟩ := map_eq_ok_iff.mp read
      cases value : reading.value with
      | error d => simp [value, LineResult.error?] at clean
      | ok line =>
        obtain ⟨l, made, rfl⟩ := isRead_of_symbolicReader here value
        rw [value] at clean
        exact ⟨l, _, made, ⟨others, later, clean, rfl⟩, rfl⟩
  · rintro ⟨l, others, made, ⟨results, read, clean, rfl⟩, rfl⟩
    obtain ⟨warnings, here⟩ := symbolicReader_of_isRead made
    exact ⟨⟨number, text, .ok (some l)⟩ :: results, by rw [readFrom_of_ok here, read]; rfl, clean, rfl⟩

/-- By induction on how the texts are annotated: what is read of them is padded in the same way. -/
theorem allRead_annotated {texts' : List String} (annotated : Annotated texts texts')
    (unbroken : ∀ text ∈ texts', Unbroken text.toList) (file' : String) (number' : Nat)
    (read : AllRead file number texts lines) :
    ∃ lines', AllRead file' number' texts' lines' ∧ Padded lines lines' := by
  induction annotated generalizing lines number number' with
  | nil =>
    obtain rfl := allRead_nil.mp read
    exact ⟨[], allRead_nil.mpr rfl, .nil⟩
  | kept text others ih =>
    obtain ⟨l, rest, first, later, rfl⟩ := allRead_cons.mp read
    obtain ⟨rest', later', padded⟩ := ih (fun text member => unbroken text (by simp [member])) (number' + 1) later
    obtain ⟨l', first', agrees⟩ := isRead_elsewhere (unbroken text (by simp)) first file' number'
    exact ⟨l' :: rest', allRead_cons.mpr ⟨l', rest', first', later', rfl⟩, .line agrees padded⟩
  | commented text comment others ih =>
    obtain ⟨l, rest, first, later, rfl⟩ := allRead_cons.mp read
    obtain ⟨rest', later', padded⟩ := ih (fun text member => unbroken text (by simp [member])) (number' + 1) later
    obtain ⟨l', first', agrees⟩ := isRead_commented comment (unbroken _ (by simp)) first file' number'
    exact ⟨l' :: rest', allRead_cons.mpr ⟨l', rest', first', later', rfl⟩, .line agrees padded⟩
  | @inserted text wordless _ _ others ih =>
    obtain ⟨rest', later', padded⟩ := ih (fun text member => unbroken text (by simp [member])) (number' + 1) read
    obtain ⟨l', first', silent⟩ := isRead_wordless (unbroken text (by simp)) wordless file' number'
    exact ⟨l' :: rest', allRead_cons.mpr ⟨l', rest', first', later', rfl⟩, .silent silent padded⟩

/-- All lines of an annotated text can be read, if those of the text without the comments can. -/
theorem parseSource_annotated {source source' : String} {parsed : ParsedFile Line}
    (annotated : Annotated (Text.lines source) (Text.lines source'))
    (read : (parseSource source file).value = .ok parsed) (clean : parsed.errors = []) (file' : String) :
    ∃ parsed', (parseSource source' file').value = .ok parsed' ∧ parsed'.errors = [] ∧
      Padded parsed.lines parsed'.lines := by
  obtain ⟨results, found, rfl⟩ := map_eq_ok_iff.mp read
  obtain ⟨lines', ⟨results', found', clean', rfl⟩, padded⟩ := allRead_annotated annotated
    (fun _ member => unbroken_of_mem_lines member) file' 1 ⟨results, found, clean, rfl⟩
  exact ⟨⟨file', results'⟩, map_eq_ok_iff.mpr ⟨results', found', rfl⟩, clean', padded⟩

end

end Source

end WordMachine
