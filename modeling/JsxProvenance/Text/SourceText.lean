import JsxProvenance.Text.Utf8

/-!
The text of a source file. Bytes that are no UTF-8 do not stop a file from being read: each of them
is kept as a sign of its own, and written back as the byte it was.
-/

namespace JsxProvenance

/-- A sign of a source text: a character, or a byte that belongs to none. -/
inductive Sign where
  | char (c : Char)
  | byte (b : UInt8)
  deriving DecidableEq, Repr, Inhabited

def Sign.bytes : Sign → List UInt8
  | char c => String.utf8EncodeChar c
  | byte b => [b]

namespace SourceText

/-- Reads the bytes as signs. The first argument counts bytes that are already read. -/
def decodeFrom : Nat → List UInt8 → List Sign
  | _, [] => []
  | skip + 1, _ :: rest => decodeFrom skip rest
  | 0, b :: rest =>
      match Utf8.front b rest with
      | .char c length => .char c :: decodeFrom (length - 1) rest
      | .broken _ length => ((b :: rest).take length).map .byte ++ decodeFrom (length - 1) rest

def decode (bytes : List UInt8) : List Sign :=
  decodeFrom 0 bytes

def encode (text : List Sign) : List UInt8 :=
  text.flatMap Sign.bytes

end SourceText
end JsxProvenance
