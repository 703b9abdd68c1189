import JsxProvenance.Tsx.Parser

/-!
The nonterminals of the grammar that refer to one another. Each is read by a parser that is given
readers for all of them, and the recursion is closed in one place.
-/

namespace JsxProvenance.Tsx

/-- The nonterminals that occur inside themselves. -/
inductive Nonterminal where
  | statement
  /-- Statements in braces. -/
  | block
  /-- One or more expressions with commas between them. In the head of a loop the word `in` is no
  operator. -/
  | expression (loopHead : Bool)
  /-- An expression without a comma. Inside a conditional an arrow may have to do without the type
  of its result, since the colon is needed otherwise. -/
  | assignment (loopHead arrowTypes : Bool)
  /-- An operand with its prefixes and suffixes. -/
  | operand (loopHead arrowTypes : Bool)
  | typeTerm
  /-- A type without operators. -/
  | typeOperand
  /-- What a value can be bound to. -/
  | binding
  /-- An element or a fragment. -/
  | element
  deriving DecidableEq, Repr

/-- Readers for all nonterminals. -/
abbrev Readers := Nonterminal → Parser Cst

namespace Readers

/-- An expression without a comma, outside of loop heads. -/
def value (r : Readers) : Parser Cst :=
  r (.assignment false true)

def anyValue (r : Readers) : Parser Cst :=
  r (.expression false)

end Readers

/-- The field that nodes fill under the given name. -/
def asField (name : String) (p : Parser Cst) : Parser Cst :=
  filling name <$> p

/-- An initial value after an equals sign, if there is one. -/
def initialValue (r : Readers) (loopHead : Bool) : Parser (List Cst) := do
  if ← Parser.acceptOp "=" then
    return [← asField "value" (r (.assignment loopHead true))]
  else return []

end JsxProvenance.Tsx
