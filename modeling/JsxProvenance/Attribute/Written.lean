import JsxProvenance.Text.JsonString

/-!
The written form of an inserted attribute. The string of an attribute knows no escapes, so a value
that would need one is written as an expression in braces that holds a JSON string.
-/

namespace JsxProvenance

/-- Whether a value cannot stand between double quotes. -/
def needsExpression (value : List Char) : Bool :=
  '"' ∈ value || '\\' ∈ value || '\n' ∈ value

/-- The written form of a value. -/
def writtenValue (value : List Char) : List Char :=
  if needsExpression value then
    '{' :: (JsonString.encode value ++ ['}'])
  else '"' :: (value ++ ['"'])

/-- The written form of an attribute, with the space in front of it. No value is written as an
empty one. -/
def writtenAttribute (name : String) (value : Option String) : List Char :=
  ' ' :: (name.toList ++ '=' :: writtenValue (value.getD "").toList)

end JsxProvenance
