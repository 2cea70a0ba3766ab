import WordMachine.Mnemonic
import WordMachine.Text.Capital
/-!
The words of the symbolic dialect: mnemonics, their other names, and the names of library routines,
which stand for a call of the routine. Names are read in capitals or in small letters.
-/
namespace WordMachine.Vocabulary

/-- What a name stands for: a mnemonic, and the routine that a routine's name calls. -/
structure Entry where
  mnemonic : Mnemonic
  routine : Option Routine
  deriving DecidableEq, Repr

def aliases : List (String × Mnemonic) :=
  [("NTHG", .nil), ("MPLY", .mult), ("MPLYX", .multx), ("SWAP", .nilx)]

def entries : List (String × Entry) :=
  Mnemonic.all.map (fun m => (m.name, ⟨m, none⟩))
    ++ aliases.map (fun (name, m) => (name, ⟨m, none⟩))
    ++ Routine.all.map (fun r => (r.name, ⟨.extra, some r⟩))

def lookup? (name : String) : Option Entry :=
  entries.lookup (Text.capitalised name)

def knows (name : String) : Bool :=
  (lookup? name).isSome

def names : List String :=
  (entries.map (·.1)).mergeSort fun a b => decide (a ≤ b)

/-- The name of an executed instruction: a call of a routine shows the routine. `address` is the
operand's address where the instruction names it directly. -/
def shownName (m : Mnemonic) (address : Int) : String :=
  match m with
  | .extra => ((Routine.ofNumber? address).map Routine.name).getD m.name
  | _ => m.name

end WordMachine.Vocabulary
