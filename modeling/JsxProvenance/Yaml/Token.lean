/-!
Tokens of YAML 1.1. The structure of block collections lies in the indentation: the first token of
a collection opens it, and a token further left closes it. A key of one line is only known to be
one when its colon is met, so the token that marks it is put in front of it then.
-/

namespace JsxProvenance.Yaml

/-- How a scalar is written. -/
inductive Style where
  | plain
  | quoted
  | block
  deriving DecidableEq, Repr, Inhabited

/-- What a line that starts with a percent sign says. -/
inductive Directive where
  | version (major minor : Nat)
  | tag (handle tagStart : String)
  | other
  deriving DecidableEq, Repr, Inhabited

/-- A token. -/
inductive Token where
  | directive (d : Directive)
  | documentStart
  | documentEnd
  | blockSequenceStart
  | blockMappingStart
  | blockEnd
  | flowSequenceStart
  | flowSequenceEnd
  | flowMappingStart
  | flowMappingEnd
  | flowEntry
  | blockEntry
  | key
  | value
  | reference (name : String)
  | anchor (name : String)
  /-- A tag with its handle, if it has one. -/
  | tag (handle : Option String) (suffix : String)
  | scalar (style : Style) (text : String)
  | streamEnd
  deriving DecidableEq, Repr, Inhabited

end JsxProvenance.Yaml
