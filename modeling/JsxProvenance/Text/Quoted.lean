import JsxProvenance.Text.Hex
import JsxProvenance.Text.Printable

/-!
Texts in quotes, as messages show them. Single quotes are preferred; double quotes stand around a
text that holds single ones only. What does not show as itself is escaped by its code point, in
two, four or eight hexadecimal digits.
-/

namespace JsxProvenance.Quoted

def quoteFor (s : List Char) : Char :=
  if '\'' ∈ s ∧ '"' ∉ s then '"' else '\''

def escape (quote c : Char) : List Char :=
  if c = quote ∨ c = '\\' then ['\\', c]
  else if c = '\n' then ['\\', 'n']
  else if c = '\r' then ['\\', 'r']
  else if c = '\t' then ['\\', 't']
  else if isPrintable c then [c]
  else if c.toNat ≤ 0xff then '\\' :: 'x' :: Hex.digits 2 c.toNat
  else if c.toNat ≤ 0xffff then '\\' :: 'u' :: Hex.digits 4 c.toNat
  else '\\' :: 'U' :: Hex.digits 8 c.toNat

def encode (s : List Char) : List Char :=
  quoteFor s :: (s.flatMap (escape (quoteFor s)) ++ [quoteFor s])

def text (s : String) : String :=
  String.ofList (encode s.toList)

/-- The texts of the entries of a list, in brackets. -/
def bracketed (entries : List String) : String :=
  "[" ++ ", ".intercalate entries ++ "]"

end JsxProvenance.Quoted
