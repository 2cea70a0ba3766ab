import WordMachine.Proofs.Assembly.Faithful
import WordMachine.Proofs.Layout.Padded

/-!
# Comments and blank lines

An assembly says where its words come from, and its listing shows the source. Apart from that, a program stays the
same when comments are put at the ends of its lines and lines without a word between them.
-/
namespace WordMachine

open Source

/-- The assemblies are one program. The lines that its words come from and the listing may differ. -/
structure Assembly.SameProgram (a a' : Assembly) : Prop where
  words : a'.words.map (fun w => (w.location, w.word)) = a.words.map fun w => (w.location, w.word)
  literals : a'.literals = a.literals
  labels : a'.labels = a.labels
  entry : a'.entry = a.entry

theorem entry_eq_of_words {a a' : Assembly}
    (words : a'.words.map (fun w => (w.location, w.word)) = a.words.map fun w => (w.location, w.word)) :
    a'.entry = a.entry := by
  have entry (a : Assembly) : a.entry =
      (((a.words.map fun w => (w.location, w.word)).filter (·.2.isInstruction)).map (·.1)).min? := by
    simp [Assembly.entry, List.filter_map, Function.comp_def]
  rw [entry, entry, words]

variable {settings : AssemblySettings} {lines lines' : List Line}

/-- A padded file is assembled to the same program: the words come in the same order before they are sorted. -/
theorem sameProgram_padded (padded : Padded lines lines') (file file' : String) :
    (assembled settings lines file).SameProgram (assembled settings lines' file') := by
  have same := Layout.sameTables_padded settings padded
  have words : (assembled settings lines' file').words.map (fun w => (w.location, w.word)) =
      (assembled settings lines file).words.map fun w => (w.location, w.word) := by
    have sorted (ws : List AssembledWord) :
        (ws.mergeSort fun a b => decide (a.location ≤ b.location)).map (fun w => (w.location, w.word)) =
          (ws.map fun w => (w.location, w.word)).mergeSort fun a b => decide (a.1 ≤ b.1) :=
      List.map_mergeSort fun _ _ _ _ => rfl
    simp only [assembled, sorted, List.map_flatMap]
    congr 1
    exact flatMap_planned_padded padded (fun _ _ here agrees => Encoding.wordsOf_of_agrees same agrees here)
      (fun _ here silent => by rw [wordsOf_silent _ _ silent]; rfl) settings.origin
  refine ⟨words, ?_, same.labels, entry_eq_of_words words⟩
  simp only [assembled, same.literals]

/-- Lines with other comments and silent lines between them make the same program. -/
theorem generate_padded (padded : Padded lines lines') (admitted : ∀ line ∈ lines, line.Admitted) {a : Assembly}
    {file : String} (success : (generate settings lines file).outcome = .ok a) (file' : String) :
    ∃ a', (generate settings lines' file').outcome = .ok a' ∧ a.SameProgram a' := by
  obtain ⟨formed, rfl⟩ := assembled_of_ok admitted success
  exact ⟨_, generate_of_wellFormed (admitted_padded padded admitted) (wellFormed_padded padded admitted formed),
    sameProgram_padded padded file file'⟩

/-- Whatever comments are added to the lines of a source text, and whatever lines with nothing but blanks and a
comment are put between them: if the text is assembled, the other one is, and to the same program. -/
theorem comments_keep_program (asm : Assembler) {source changed file : String} {a : Assembly}
    (annotated : Text.Annotated (Text.lines source) (Text.lines changed))
    (success : (asm.assemble source file).value.2 = .ok a) :
    ∃ a', (asm.assemble changed file).value.2 = .ok a' ∧ a.SameProgram a' := by
  obtain ⟨parsed, read, clean, generated, origin⟩ := generate_of_assemble success
  obtain ⟨parsed', read', clean', padded⟩ := parseSource_annotated annotated read clean file
  obtain ⟨a', generated', same⟩ := generate_padded padded
    (fun line member => (isParsed_of_parseSource read line member).admitted) generated file
  exact ⟨a', assemble_of_generate read' (by simp [ParsedFile.ok, clean']) generated' origin, same⟩

/-- A datum, a text with a semicolon, a located word with a label and a literal, and a missing operand. -/
def bareText : String :=
  "5\n\"A;B\"\n20 HERE: ADD +7\nSTOP"

def remarkedText : String :=
  " \t; data\n5; not a location\n\n\"A;B\";\"\n20 HERE: ADD +7; HERE: ADD +8\n\t\nSTOP;;\n"

/-- The number at the start of a line stays a datum before a comment, and the words stay where they were. -/
theorem remarkedText_same_program : Text.Annotated (Text.lines bareText) (Text.lines remarkedText) ∧
    ∃ a a', ((Assembler.new {}).assemble bareText "bare").value.2 = .ok a ∧
      ((Assembler.new {}).assemble remarkedText "bare").value.2 = .ok a' ∧ a.SameProgram a' ∧
      a.listing.map (·.locations) = [[8], [9], [20], [21]] ∧ a.labels = [("HERE", 20)] := by
  have bare : Text.lines bareText = ["5", "\"A;B\"", "20 HERE: ADD +7", "STOP"] := by decide +kernel
  have remarked : Text.lines remarkedText = [" \t; data", "5" ++ ";" ++ " not a location", "",
      "\"A;B\"" ++ ";" ++ "\"", "20 HERE: ADD +7" ++ ";" ++ " HERE: ADD +8", "\t", "STOP" ++ ";" ++ ";"] := by
    decide +kernel
  have annotated : Text.Annotated (Text.lines bareText) (Text.lines remarkedText) := by
    rw [bare, remarked]
    exact .inserted ⟨[' ', '\t'], by simp, Or.inr ⟨_, rfl⟩⟩ <| .commented _ _ <| .inserted ⟨[], by simp, Or.inl rfl⟩ <|
      .commented _ _ <| .commented _ _ <| .inserted ⟨['\t'], by simp, Or.inl rfl⟩ <| .commented _ _ .nil
  have evaluated : ((Assembler.new {}).assemble bareText "bare").value.2.toOption.map
      (fun a => (a.listing.map (·.locations), a.labels)) = some ([[8], [9], [20], [21]], [("HERE", 20)]) := by
    decide +kernel
  obtain ⟨a, made, seen⟩ := Option.map_eq_some_iff.mp evaluated
  have success : ((Assembler.new {}).assemble bareText "bare").value.2 = .ok a := by
    cases result : ((Assembler.new {}).assemble bareText "bare").value.2 with
    | error e => simp [result, Except.toOption] at made
    | ok b => simpa [result, Except.toOption] using made
  obtain ⟨a', success', same⟩ := comments_keep_program (Assembler.new {}) annotated success
  simp only [Prod.mk.injEq] at seen
  exact ⟨annotated, a, a', success, success', same, seen⟩

end WordMachine
