import JsxProvenance.Tsx.Grammar.Types

/-!
What values are bound to: names, object patterns and array patterns, and the parameters of
functions.
-/

namespace JsxProvenance.Tsx

open JsxProvenance.Tsx.Parser

/-- The name of a property: a word, a string, a number, a private name, or an expression in square
brackets. -/
def propertyName (r : Readers) : Parser Cst := do
  match ← charAhead with
  | '[' => spanned "computed_property_name" do
      expectOp "["
      let name ← r.value
      expectOp "]"
      return [name]
  | '#' => privateName
  | '"' => stringLiteral
  | '\'' => stringLiteral
  | c =>
      if c.isDigit || c == '.' then numberLiteral else anyName "property_identifier"

def bindingWithDefault (r : Readers) : Parser Cst := do
  let start ← nextIndex
  let left ← r .binding
  if ← acceptOp "=" then
    let right ← r.value
    node "assignment_pattern" start [filling "left" left, filling "right" right]
  else return left

def restBinding (r : Readers) : Parser Cst :=
  spanned "rest_pattern" do
    expectOp "..."
    return [← r .binding]

def objectPatternEntry (r : Readers) : Parser Cst := do
  let start ← nextIndex
  if (← operatorAhead) == "..." then restBinding r
  else
    let word ← wordAhead
    let name ← propertyName r
    if ← acceptOp ":" then
      let value ← bindingWithDefault r
      node "pair_pattern" start [filling "key" name, filling "value" value]
    else
      require (word != "")
      let shorthand ← node "shorthand_property_identifier_pattern" start []
      if ← acceptOp "=" then
        let right ← r.value
        node "object_assignment_pattern" start [filling "left" shorthand, filling "right" right]
      else return shorthand

def objectPattern (r : Readers) : Parser Cst :=
  spanned "object_pattern" do
    expectOp "\x7b"
    commaItems "\x7d" (do return [← objectPatternEntry r])

def arrayPattern (r : Readers) : Parser Cst :=
  spanned "array_pattern" do
    expectOp "["
    commaItems "]" do
      if (← operatorAhead) == "..." then return [← restBinding r]
      else return [← bindingWithDefault r]

def binding (r : Readers) : Parser Cst := do
  match ← charAhead with
  | '\x7b' => objectPattern r
  | '[' => arrayPattern r
  | _ => identifier

/-- A decorator: a dotted name, which can be called, or an expression in parentheses. -/
def decorator (r : Readers) : Parser Cst :=
  spanned "decorator" do
    expectOp "@"
    let start ← nextIndex
    if ← acceptOp "(" then
      let inner ← r.anyValue
      expectOp ")"
      return [← node "parenthesized_expression" start [inner]]
    else
      let path ← grow (fun object => do
        if ← acceptOp "." then
          let property ← anyName "property_identifier"
          return some (← node "member_expression" start
            [filling "object" object, filling "property" property])
        else return none) (← anyName "identifier")
      let arguments ← option do
        let types ← optionalTypeArguments r
        let values ← spanned "arguments" do
          expectOp "("
          commaItems ")" (do return [← r.value])
        return types ++ [values]
      match arguments with
      | some children => return [← node "call_expression" start (path :: children)]
      | none => return [path]

def decorators (r : Readers) : Parser (List Cst) :=
  many do
    if (← operatorAhead) == "@" then return some (← decorator r) else return none

/-- The words that can stand in front of a parameter. -/
def parameterModifiers : List String :=
  ["public", "private", "protected", "readonly", "override"]

def parameter (r : Readers) : Parser Cst :=
  spanned "required_parameter" do
    let marks ← decorators r
    let _ ← many do
      let next ← charAfterWord
      if parameterModifiers.contains (← wordAhead)
          && ((← secondWordAhead) != "" || next == '\x7b' || next == '[') then
        let _ ← anyName "accessibility_modifier"
        return some ()
      else return none
    let bound ←
      if (← operatorAhead) == "..." then restBinding r
      else if (← wordAhead) == "this" then anyName "this"
      else r .binding
    let _ ← acceptOp "?"
    let annotation ← optionalTypeAnnotation r
    let init ← initialValue r false
    return marks ++ [filling "pattern" bound] ++ annotation ++ init

def parameters (r : Readers) : Parser Cst :=
  spanned "formal_parameters" do
    expectOp "("
    commaItems ")" (do return [← parameter r])

end JsxProvenance.Tsx
