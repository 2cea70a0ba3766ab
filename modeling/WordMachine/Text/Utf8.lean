/-!
UTF-8, read strictly: overlong forms, surrogates and values past the last code point are refused at the
first byte that rules them out. An error names the bytes that were taken for one character.
-/
namespace WordMachine.Text

inductive Utf8Fault where
  /-- No character starts with the byte. -/
  | startByte
  /-- The byte after the reported ones does not go on with their character. -/
  | continuation
  /-- The bytes end within a character. -/
  | endOfData
  deriving DecidableEq, Repr

def Utf8Fault.message : Utf8Fault → String
  | .startByte => "invalid start byte"
  | .continuation => "invalid continuation byte"
  | .endOfData => "unexpected end of data"

/-- Why bytes are no text: the fault, and the bytes that it is about, with the position of the first. -/
structure Utf8Error where
  fault : Utf8Fault
  position : Nat
  bytes : List UInt8
  deriving DecidableEq, Repr

def Utf8Error.message (e : Utf8Error) : String :=
  match e.bytes with
  | [byte] =>
    let shown := String.ofList ((Nat.toDigits 16 (byte.toNat + 0x100)).drop 1)
    s!"'utf-8' codec can't decode byte 0x{shown} in position {e.position}: {e.fault.message}"
  | bytes =>
    let last := e.position + bytes.length - 1
    s!"'utf-8' codec can't decode bytes in position {e.position}-{last}: {e.fault.message}"

/-- What the first byte of a longer character says: its own bits, how many bytes follow, and the range of
the first of these. -/
structure Lead where
  bits : Nat
  more : Nat
  low : Nat
  high : Nat

/-- Reads the first byte of a character of two to four bytes. -/
def lead? (b : Nat) : Option Lead :=
  if b < 0xc2 then none
  else if b < 0xe0 then some ⟨b - 0xc0, 1, 0x80, 0xbf⟩
  else if b < 0xf0 then
    some ⟨b - 0xe0, 2, if b = 0xe0 then 0xa0 else 0x80, if b = 0xed then 0x9f else 0xbf⟩
  else if b < 0xf5 then
    some ⟨b - 0xf0, 3, if b = 0xf0 then 0x90 else 0x80, if b = 0xf4 then 0x8f else 0xbf⟩
  else none

/-- Goes on with a character after `taken` bytes, whose bits so far are `n`: its code point, or the fault
and how many bytes it is about. -/
def follow (low high n : Nat) (taken : Nat) : Nat → List UInt8 → Except (Utf8Fault × Nat) Nat
  | 0, _ => .ok n
  | _ + 1, [] => .error (.endOfData, taken)
  | more + 1, b :: rest =>
    if low ≤ b.toNat ∧ b.toNat ≤ high then
      follow 0x80 0xbf (n * 64 + (b.toNat - 0x80)) (taken + 1) more rest
    else .error (.continuation, taken)

/-- The character that starts with a byte, and how many of the bytes after it belong to it. -/
def charAt (b : UInt8) (rest : List UInt8) : Except (Utf8Fault × Nat) (Char × Nat) :=
  if b.toNat < 0x80 then .ok (Char.ofNat b.toNat, 0)
  else
    match lead? b.toNat with
    | none => .error (.startByte, 1)
    | some l => (follow l.low l.high l.bits 1 l.more rest).map fun n => (Char.ofNat n, l.more)

/-- The characters of bytes, the first of which has the given position. -/
def decodeFrom (bytes : List UInt8) (position : Nat) : Except Utf8Error (List Char) :=
  match bytes with
  | [] => .ok []
  | b :: rest =>
    match charAt b rest with
    | .error (fault, count) => .error ⟨fault, position, (b :: rest).take count⟩
    | .ok (c, more) => (c :: ·) <$> decodeFrom (rest.drop more) (position + 1 + more)
termination_by bytes.length
decreasing_by simp only [List.length_drop, List.length_cons]; omega

def decodeUtf8 (bytes : List UInt8) : Except Utf8Error (List Char) :=
  decodeFrom bytes 0

end WordMachine.Text
