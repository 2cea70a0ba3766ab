import WordMachine.Settings
import WordMachine.Proofs.Text.Numeral

/-!
# Settings from the environment

What each variable of the environment gives is stated by itself, with the remarks about it. A value that gives nothing
is passed over with one remark, and the paths imply their switches. One kind of value is neither used nor passed over:
a step limit of digits that are not read as an integer, for which there are no settings at all.
-/
namespace WordMachine.Settings

/-- The variable is not set, or it is empty. -/
def Unset (value : Option String) : Prop :=
  value = none ∨ value = some ""

/-- What the variable of the dialect gives, and the remarks about it. -/
inductive LanguageFrom : Option String → String → List Warning → Prop where
  | unset {value : Option String} (unset : Unset value) : LanguageFrom value "bbcx" []
  | named {text : String} {d : Dialect} (name : Text.inSmallLetters text = d.name) :
    LanguageFrom (some text) (Text.inSmallLetters text) []
  | ignored {text : String} (set : text ≠ "") (unknown : ∀ d : Dialect, Text.inSmallLetters text ≠ d.name) :
    LanguageFrom (some text) "bbcx" [.ignoredLanguage text]

/-- What the variable of a directory gives. Every value is a path. -/
inductive PathFrom : Option String → Option Files.Path → Prop where
  | unset {value : Option String} (unset : Unset value) : PathFrom value none
  | given {text : String} (set : text ≠ "") : PathFrom (some text) (some (.ofText text))

/-- What the variable of the step limit gives, and the remarks about it. A sign or a blank makes a text useless. -/
inductive LimitFrom : Option String → Option Int → List Warning → Prop where
  | unset {value : Option String} (unset : Unset value) : LimitFrom value none []
  | limit {text : String} {n : Nat} (denotes : Text.Denotes text.toList n) (positive : 0 < n) :
    LimitFrom (some text) (some n) []
  | ignored {text : String} (set : text ≠ "") (useless : ∀ n, Text.Denotes text.toList n → n = 0) :
    LimitFrom (some text) none [.ignoredStepLimit text]

/-- Digits that are not read as an integer: one of them has no decimal value, or there are too many. -/
def Unreadable (value : Option String) : Prop :=
  ∃ text, value = some text ∧ (∀ c ∈ text.toList, Text.isDigit c = true) ∧
    ((∃ c ∈ text.toList, Text.decimalValue? c = none) ∨ Text.maxDigits < text.toList.length)

/-- The settings and the remarks are those that the variables give, and nothing else is set. -/
structure Follows (s : Settings) (environment : List (String × String)) (warnings : List Warning) : Prop where
  remarked : ∃ language limit, warnings = language ++ limit ∧
    LanguageFrom (environment.lookup "BBCX_LANGUAGE") s.language language ∧
    LimitFrom (environment.lookup "BBCX_MAX_STEPS") s.maxSteps limit
  listPath : PathFrom (environment.lookup "BBCX_LIST_PATH") s.listPath
  tracePath : PathFrom (environment.lookup "BBCX_TRACE_PATH") s.tracePath
  list : s.list = s.listPath.isSome
  trace : s.trace = s.tracePath.isSome
  run : s.run = s.tracePath.isSome
  rest : s.origin = 8 ∧ s.maxErrors = 100
  settled : s.normalized = s

/-! ## Single variables -/

theorem valueOf?_cases (environment : List (String × String)) (name : String) :
    Unset (environment.lookup name) ∧ valueOf? environment name = none ∨
    ∃ text, text ≠ "" ∧ environment.lookup name = some text ∧ valueOf? environment name = some text := by
  unfold valueOf? Unset
  cases environment.lookup name with
  | none => exact .inl ⟨.inl rfl, rfl⟩
  | some text =>
    by_cases empty : text = ""
    · subst empty
      exact .inl ⟨.inr rfl, rfl⟩
    · exact .inr ⟨text, empty, rfl, by simp [Option.filter, empty]⟩

theorem pathFrom_valueOf? (environment : List (String × String)) (name : String) :
    PathFrom (environment.lookup name) ((valueOf? environment name).map Files.Path.ofText) := by
  obtain ⟨unset, gives⟩ | ⟨text, set, found, gives⟩ := valueOf?_cases environment name
  · rw [gives]
    exact .unset unset
  · rw [gives, found]
    exact .given set

/-- The dialect is the one that is named, and a name that means none is remarked. -/
theorem languageFrom_readLanguage (environment : List (String × String)) (name : String) :
    LanguageFrom (environment.lookup name) (readLanguage (valueOf? environment name)).value
      (readLanguage (valueOf? environment name)).warnings := by
  obtain ⟨unset, gives⟩ | ⟨text, set, found, gives⟩ := valueOf?_cases environment name
  · rw [gives]
    exact .unset unset
  · rw [gives, found]
    cases known : Dialect.ofName? text with
    | none =>
      simp only [readLanguage, known]
      refine .ignored set fun d named => ?_
      have other := List.find?_eq_none.mp known d (by cases d <;> decide)
      simp [named] at other
    | some d =>
      have named : d.name = Text.inSmallLetters text := by simpa using List.find?_some known
      simp only [readLanguage, known]
      rw [named]
      exact .named named.symm

theorem not_unreadable_of_unset {value : Option String} (unset : Unset value) : ¬ Unreadable value := by
  rintro ⟨text, given, -, unread⟩
  rcases unset with none | empty
  · cases none.symm.trans given
  · cases empty.symm.trans given
    simp at unread

/-- A step limit is used or passed over, unless it is made of digits that are not read. -/
theorem limitFrom_readStepLimit (environment : List (String × String)) (name : String) :
    Unreadable (environment.lookup name) ∧ (∃ e, (readStepLimit (valueOf? environment name)).value = .error e) ∨
    ¬ Unreadable (environment.lookup name) ∧ ∃ limit, (readStepLimit (valueOf? environment name)).value = .ok limit ∧
      LimitFrom (environment.lookup name) limit (readStepLimit (valueOf? environment name)).warnings := by
  obtain ⟨unset, gives⟩ | ⟨text, set, found, gives⟩ := valueOf?_cases environment name
  · rw [gives]
    exact .inr ⟨not_unreadable_of_unset unset, none, rfl, .unset unset⟩
  rw [gives, found]
  by_cases digits : text.toList.all Text.isDigit = true
  · have each := List.all_eq_true.mp digits
    cases read : Text.readNumeral text.toList with
    | error e =>
      have unread := Text.exists_readNumeral_error_iff.mp ⟨e, read⟩
      exact .inl ⟨⟨text, rfl, each, unread⟩, e, by simp only [readStepLimit, digits, read, if_true]⟩
    | ok n =>
      have denotes := (Text.readNumeral_eq_ok_iff.mp read).1
      refine .inr ⟨?_, ?_⟩
      · rintro ⟨same, given, -, unread⟩
        cases given
        obtain ⟨e, refused⟩ := Text.exists_readNumeral_error_iff.mpr unread
        cases refused.symm.trans read
      · cases n with
        | zero =>
          simp only [readStepLimit, digits, read, if_true]
          exact ⟨none, rfl, .ignored set fun n also => also.unique denotes⟩
        | succ n =>
          simp only [readStepLimit, digits, read, if_true]
          exact ⟨some (n + 1 : Nat), rfl, .limit denotes n.succ_pos⟩
  · refine .inr ⟨?_, none, by simp only [readStepLimit, digits]; rfl, ?_⟩
    · rintro ⟨same, given, each, -⟩
      cases given
      exact digits (List.all_eq_true.mpr each)
    · simp only [readStepLimit, digits]
      exact .ignored set fun n denotes => absurd (List.all_eq_true.mpr denotes.isDigit) digits

/-! ## All of them -/

/-- Nothing is implied that is not there after the first time. -/
theorem normalized_normalized (s : Settings) : s.normalized.normalized = s.normalized := by
  simp [normalized]

/-- The environment gives settings that follow from its variables, unless its step limit is made of digits that are not
read as an integer. Then it gives none. -/
theorem settings_follow_environment (environment : List (String × String)) :
    Unreadable (environment.lookup "BBCX_MAX_STEPS") ∧ (∃ e, (ofEnvironment environment).value = .error e) ∨
    ¬ Unreadable (environment.lookup "BBCX_MAX_STEPS") ∧ ∃ s, (ofEnvironment environment).value = .ok s ∧
      s.Follows environment (ofEnvironment environment).warnings := by
  rcases limitFrom_readStepLimit environment "BBCX_MAX_STEPS" with
    ⟨unreadable, e, refused⟩ | ⟨readable, limit, read, gives⟩
  · refine .inl ⟨unreadable, e, ?_⟩
    simp only [ofEnvironment, refused]
    rfl
  · refine .inr ⟨readable, _, by simp only [ofEnvironment, read]; rfl, ?_⟩
    exact {
      remarked := ⟨_, _, rfl, languageFrom_readLanguage environment _, gives⟩
      listPath := pathFrom_valueOf? environment _
      tracePath := pathFrom_valueOf? environment _
      list := by simp [normalized]
      trace := by simp [normalized]
      run := by simp [normalized]
      rest := ⟨rfl, rfl⟩
      settled := normalized_normalized _ }

/-- A superscript is a digit, and no integer is read from it. -/
theorem superscriptLimit_refused : ∃ e, (ofEnvironment [("BBCX_MAX_STEPS", "²")]).value = .error e :=
  ⟨.valueless "²", by decide +kernel⟩

end WordMachine.Settings
