/-!
The mnemonics of the legacy dialect. They form a closed set in five groups, which differ in the operands
they take. The digit two, written directly after a mnemonic, stands for the second accumulator.
-/
namespace WordMachine.Legacy

inductive Group where
  /-- Any operand. -/
  | take
  /-- An operand that names a location. -/
  | put
  /-- Nothing. -/
  | library
  /-- An address without index, and an index. -/
  | loadNumber
  /-- A constant or an address without index, and an index. -/
  | loadRegister
  deriving DecidableEq, Repr

namespace Vocabulary

def arithmetic : List String :=
  ["NTHG", "ADD", "SUBT", "MPLY", "DVD", "TAKE", "NEG", "MOD", "CLR", "AND", "OR", "NEQV", "NOT", "SHFR",
   "CYCR", "OPUT"]

def storing : List String :=
  ["IPUT", "PUT", "INCR", "DECR", "TYPE", "CHYP", "EXEC"]

def skips : List String :=
  ["SKET", "SKAE", "SKAN", "SKAL", "SKAG"]

def jumps : List String :=
  ["LIBR", "JLIK", "JUMP", "JEZ", "JNZ", "JLZ", "JGZ", "JOI", "SLIK", "SNLZ"]

def routines : List String :=
  ["SQRT", "LN", "EXP", "READ", "PRINT", "SIN", "COS", "TAN", "ARCTAN", "STOP", "LINE", "INT", "FRAC",
   "FLOAT", "CAPTN"]

/-- The group of a mnemonic. An X before an arithmetic or a storing mnemonic makes it name a location. -/
def group? (name : String) : Option Group :=
  if (arithmetic ++ skips).contains name then some .take
  else if (storing ++ jumps ++ (arithmetic ++ storing).map ("X" ++ ·)).contains name then some .put
  else if routines.contains name then some .library
  else if name = "LDN" then some .loadNumber
  else if name = "LDR" then some .loadRegister
  else none

def alternateAccumulator : Nat := 2

/-- Mnemonic and accumulator of a name. Routines take no accumulator, so their names are never cut. -/
def splitAccumulator (name : String) : String × Option Nat :=
  match name.toList.reverse with
  | '2' :: before =>
    let stem := String.ofList before.reverse
    match group? stem with
    | none | some .library => (name, none)
    | some _ => (stem, some alternateAccumulator)
  | _ => (name, none)

end Vocabulary

end WordMachine.Legacy
