import WordMachine.Text.Quoted
/-!
Remarks that do not stop the work: what they are about and how they read, and results that carry them.
-/
namespace WordMachine

inductive Warning where
  /-- A label that is also the name of a mnemonic or a routine. -/
  | shadowedMnemonic (file : String) (line : Int) (label : String)
  /-- A setting for the dialect that names none. -/
  | ignoredLanguage (value : String)
  /-- A setting for the step limit that is no positive integer. -/
  | ignoredStepLimit (value : String)
  deriving DecidableEq, Repr

def Warning.message : Warning → String
  | .shadowedMnemonic file line label => s!"{file}:{line}: label '{label}' shadows a mnemonic"
  | .ignoredLanguage value =>
    s!"Ignoring BBCX_LANGUAGE={Text.quoted value}: expected one of bbcx, bbc3"
  | .ignoredStepLimit value =>
    s!"Ignoring BBCX_MAX_STEPS={Text.quoted value}: expected a positive integer"

/-- A result and the remarks made on the way to it, in order. -/
structure Warned (α : Type) where
  value : α
  warnings : List Warning := []

namespace Warned

def map {α β : Type} (f : α → β) (w : Warned α) : Warned β :=
  ⟨f w.value, w.warnings⟩

def bind {α β : Type} (w : Warned α) (f : α → Warned β) : Warned β :=
  ⟨(f w.value).value, w.warnings ++ (f w.value).warnings⟩

end Warned

end WordMachine
