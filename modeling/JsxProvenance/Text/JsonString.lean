import JsxProvenance.Text.Hex

/-!
JSON string literals in printable ASCII. Any other character is written as one `\u` escape of four
lower-case hexadecimal digits, or as the two of its surrogate pair.
-/

namespace JsxProvenance.JsonString

def unitEscape (n : Nat) : List Char :=
  [
    '\\', 'u', Hex.digit (n / 4096 % 16), Hex.digit (n / 256 % 16),
    Hex.digit (n / 16 % 16), Hex.digit (n % 16)
  ]

def escape (c : Char) : List Char :=
  if c = '"' then ['\\', '"']
  else if c = '\\' then ['\\', '\\']
  else if c = '\n' then ['\\', 'n']
  else if c = '\r' then ['\\', 'r']
  else if c = '\t' then ['\\', 't']
  else if c = '\x08' then ['\\', 'b']
  else if c = '\x0c' then ['\\', 'f']
  else if 0x20 ≤ c.toNat ∧ c.toNat ≤ 0x7e then [c]
  else if c.toNat < 0x10000 then unitEscape c.toNat
  else
    let n := c.toNat - 0x10000
    unitEscape (0xd800 + n / 0x400) ++ unitEscape (0xdc00 + n % 0x400)

def encode (s : List Char) : List Char :=
  '"' :: (s.flatMap escape ++ ['"'])

end JsxProvenance.JsonString
