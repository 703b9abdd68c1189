import JsxProvenance.Text.Hex

/-!
UTF-8. A reader of bytes takes one character at a time; where the bytes are no UTF-8 it says why,
and how many bytes belong to the broken part.
-/

namespace JsxProvenance.Utf8

/-- Why bytes are no character. -/
inductive Fault where
  | invalidStart
  | invalidContinuation
  | unexpectedEnd
  deriving DecidableEq, Repr, Inhabited

def Fault.reason : Fault → String
  | invalidStart => "invalid start byte"
  | invalidContinuation => "invalid continuation byte"
  | unexpectedEnd => "unexpected end of data"

/-- What stands at the front of a byte sequence. -/
inductive Front where
  | char (c : Char) (length : Nat)
  /-- The first `length` bytes are no character and no start of one. -/
  | broken (fault : Fault) (length : Nat)
  deriving Repr, Inhabited

def encode (s : List Char) : List UInt8 :=
  s.flatMap String.utf8EncodeChar

def bytes (s : String) : List UInt8 :=
  encode s.toList

/-- The number of bytes that follow a start byte, with the bounds of the first of them, and the
bits that the start byte holds. None if no character starts so. -/
def shape (b : Nat) : Option (Nat × Nat × Nat × Nat) :=
  if b < 0x80 then some (0, 0, 0, b)
  else if b < 0xc2 then none
  else if b < 0xe0 then some (1, 0x80, 0xbf, b - 0xc0)
  else if b < 0xf0 then
    some (2, if b = 0xe0 then 0xa0 else 0x80, if b = 0xed then 0x9f else 0xbf, b - 0xe0)
  else if b < 0xf5 then
    some (3, if b = 0xf0 then 0x90 else 0x80, if b = 0xf4 then 0x8f else 0xbf, b - 0xf0)
  else none

/-- Reads the bytes that follow a start byte: how many are owed, the bounds of the next, the value
and the number of bytes so far. -/
def follow : Nat → Nat → Nat → Nat → Nat → List UInt8 → Front
  | 0, _, _, value, length, _ => .char (Char.ofNat value) length
  | _ + 1, _, _, _, length, [] => .broken .unexpectedEnd length
  | owed + 1, low, high, value, length, b :: rest =>
      if low ≤ b.toNat ∧ b.toNat ≤ high then
        follow owed 0x80 0xbf (value * 64 + (b.toNat - 0x80)) (length + 1) rest
      else .broken .invalidContinuation length

def front (b : UInt8) (rest : List UInt8) : Front :=
  match shape b.toNat with
  | some (owed, low, high, value) => follow owed low high value 1 rest
  | none => .broken .invalidStart 1

def replacement : Char := '\uFFFD'

/-- Reads the bytes as characters, each with the number of its bytes, and puts one replacement
character for each broken part. The first argument counts bytes that are already read. -/
def pieces : Nat → List UInt8 → List (Char × Nat)
  | _, [] => []
  | skip + 1, _ :: rest => pieces skip rest
  | 0, b :: rest =>
      match front b rest with
      | .char c length => (c, length) :: pieces (length - 1) rest
      | .broken _ length => (replacement, length) :: pieces (length - 1) rest

def lossyText (bytes : List UInt8) : String :=
  String.ofList ((pieces 0 bytes).map (·.1))

/-- A byte sequence that is no UTF-8: where the broken part starts, its bytes, and why. -/
structure Broken where
  position : Nat
  part : List UInt8
  fault : Fault
  deriving DecidableEq, Repr, Inhabited

/-- Reads the bytes as text, strictly. The arguments count the bytes that are already read and
give the position. -/
def decodeFrom : Nat → Nat → List UInt8 → Except Broken (List Char)
  | _, _, [] => .ok []
  | skip + 1, position, _ :: rest => decodeFrom skip (position + 1) rest
  | 0, position, b :: rest =>
      match front b rest with
      | .char c length => (decodeFrom (length - 1) (position + 1) rest).map (c :: ·)
      | .broken fault length => .error ⟨position, (b :: rest).take length, fault⟩

def decode (bytes : List UInt8) : Except Broken (List Char) :=
  decodeFrom 0 0 bytes

/-- Where the last portion starts when characters of some lengths are read, each portion up to a
bound. A character that a bound cuts through is read with the next portion. -/
def portionStart (portion : Nat) : Nat → Nat → Nat → List Nat → Nat
  | start, _, _, [] => start
  | start, bound, position, length :: rest =>
      if bound < position + length then
        portionStart portion position (bound + portion) (position + length) rest
      else portionStart portion start bound (position + length) rest

/-- The broken part with its position in the portion that it is read with. A part that the end of
the bytes leaves incomplete is looked at on its own. -/
def Broken.inPortion (b : Broken) (portion : Nat) (bytes : List UInt8) : Broken :=
  match b.fault with
  | .unexpectedEnd => { b with position := 0 }
  | fault =>
      let before := (pieces 0 (bytes.take b.position)).map (·.2)
      let reach := if fault = .invalidStart then 1 else b.part.length + 1
      { b with position := b.position - portionStart portion 0 portion 0 (before ++ [reach]) }

def Broken.message (b : Broken) : String :=
  let place :=
    match b.part with
    | [byte] =>
        "byte 0x" ++ String.ofList (Hex.digits 2 byte.toNat) ++ " in position "
          ++ toString b.position
    | part =>
        "bytes in position " ++ toString b.position ++ "-"
          ++ toString (b.position + part.length - 1)
  "'utf-8' codec can't decode " ++ place ++ ": " ++ b.fault.reason

end JsxProvenance.Utf8
