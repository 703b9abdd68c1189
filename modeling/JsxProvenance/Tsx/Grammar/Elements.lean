import JsxProvenance.Tsx.Grammar.Types

/-!
JSX elements and fragments. Tags consist of tokens like other syntax, but what stands between them
is text up to the next tag or brace.
-/

namespace JsxProvenance.Tsx

open JsxProvenance.Tsx.Parser

/-- The characters of tag and attribute names after the first. -/
def isTagNamePart (c : Char) : Bool :=
  isNamePart c || c == '-'

/-- One name in a tag. It can hold hyphens. -/
def tagWord (kind : String) : Parser Cst :=
  leaf kind (lexeme fun t i =>
    if isNameStart (t.charAt i) then some (t.endOf isTagNamePart i) else none)

/-- A name with a name space in front of it. -/
def namespacedName (start : Nat) (space : Cst) : Parser Cst := do
  expectOp ":"
  node "jsx_namespace_name" start [space, ← tagWord "identifier"]

/-- The name of a tag: a name, a name in a name space, or a dotted name. -/
def tagName : Parser Cst := do
  let start ← nextIndex
  let first ← tagWord "identifier"
  if (← operatorAhead) == ":" then namespacedName start first
  else
    grow (fun object => do
      if ← acceptOp "." then
        let property ← tagWord "property_identifier"
        return some (← node "member_expression" start
          [filling "object" object, filling "property" property])
      else return none) first

/-- An expression, a spread, or nothing but comments, in braces. -/
def bracedExpression (r : Readers) : Parser Cst :=
  spanned "jsx_expression" do
    expectChar '\x7b'
    if ← acceptChar '\x7d' then return []
    else
      let start ← nextIndex
      let inner ←
        if ← acceptOp "..." then
          let value ← r.value
          node "spread_element" start [value]
        else r.anyValue
      expectChar '\x7d'
      return [inner]

/-- The string of an attribute. It knows no escapes and can go over several lines. -/
def attributeString : Parser Cst :=
  leaf "string" (lexeme fun t i =>
    let quote := t.charAt i
    if quote == '"' || quote == '\'' then
      let stop := t.endOf (· != quote) (i + 1)
      if stop < t.size then some (stop + 1) else none
    else none)

/-- The value of an attribute: a string, an expression in braces, or an element. -/
def attributeValue (r : Readers) : Parser Cst := do
  match ← charAhead with
  | '\x7b' => bracedExpression r
  | '<' => r .element
  | _ => attributeString

def tagAttribute (r : Readers) : Parser Cst :=
  spanned "jsx_attribute" do
    let start ← nextIndex
    let first ← tagWord "property_identifier"
    let name ← if (← operatorAhead) == ":" then namespacedName start first else pure first
    if ← acceptChar '=' then return [name, ← attributeValue r] else return [name]

def tagAttributes (r : Readers) : Parser (List Cst) :=
  many do
    let c ← charAhead
    if c == '\x7b' then return some (← bracedExpression r)
    else if isNameStart c then return some (← tagAttribute r)
    else return none

/-- Text between tags, as long as possible. Text that only breaks the line gives no node. -/
def elementText : Parser (List Cst) := do
  let t ← read
  let start ← get
  let stop := t.endOf (fun c => !("<>\x7b\x7d".toList.contains c)) start
  require (start < stop)
  set stop
  let inside := t.slice start stop
  if inside.all isSeparator && inside.contains '\n' then return []
  else return [← node "jsx_text" start []]

/-- The content of an element up to its closing tag. -/
def elementContent (r : Readers) : Parser (List Cst) := do
  let children ← many do
    let t ← read
    let i ← get
    match t.charAt i with
    | '<' =>
        if t.charAt (i + 1) == '/' then return none
        else return some [← r .element]
    | '\x7b' => return some [← bracedExpression r]
    | _ => return some (← elementText)
  return children.flatten

def closingTag : Parser Cst :=
  spanned "jsx_closing_element" do
    expectText "</"
    let name ← if (← charAhead) == '>' then pure [] else (do return [← tagName])
    expectChar '>'
    return name

/-- The content and the closing tag after an opening tag. -/
def elementRest (r : Readers) (start : Nat) (opening : Cst) : Parser Cst := do
  let content ← elementContent r
  let closing ← closingTag
  node "jsx_element" start (filling "open_tag" opening :: content ++ [closing])

def element (r : Readers) : Parser Cst := do
  let start ← nextIndex
  expectChar '<'
  if ← acceptChar '>' then
    elementRest r start (← node "jsx_opening_element" start [])
  else
    let name ← tagName
    let types ← if (← charAhead) == '<' then (do return [← typeArguments r]) else pure []
    let attributes ← tagAttributes r
    let parts := filling "name" name :: types ++ attributes
    if ← acceptText "/>" then
      node "jsx_self_closing_element" start parts
    else
      expectChar '>'
      elementRest r start (← node "jsx_opening_element" start parts)

end JsxProvenance.Tsx
