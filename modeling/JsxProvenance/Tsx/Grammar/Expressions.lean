import JsxProvenance.Tsx.Grammar.Elements
import JsxProvenance.Tsx.Grammar.Functions

/-!
Expressions. Operators of all ranks are read into one chain, since only the extent of a chain and
its operands matter; assignments, conditionals and arrows are told apart from chains.
-/

namespace JsxProvenance.Tsx

open JsxProvenance.Tsx.Parser

def assignmentOperators : List String :=
  [
    "=", "+=", "-=", "*=", "/=", "%=", "**=", "<<=", ">>=", ">>>=", "&=", "|=", "^=", "&&=",
    "||=", "??="
  ]

def binaryOperators : List String :=
  [
    "**", "*", "/", "%", "+", "-", "<<", ">>", ">>>", "<", ">", "<=", ">=", "==", "===", "!=",
    "!==", "&&", "||", "??", "&", "|", "^"
  ]

def unaryOperators : List String :=
  ["!", "~", "+", "-", "++", "--"]

def unaryWords : List String :=
  ["typeof", "void", "delete", "await"]

/-- The nodes of a template after its opening quote: one for each substitution. -/
def templateRest (r : Readers) : Parser (List Cst) := do
  let parts ← many do
    let t ← read
    let i ← get
    if t.size ≤ i || t.charAt i == '\x60' then return none
    else if t.charAt i == '\\' then
      set (i + 2)
      return some []
    else if t.charAt i == '$' && t.charAt (i + 1) == '\x7b' then
      set (i + 2)
      let inner ← r.anyValue
      expectChar '\x7d'
      return some [← node "template_substitution" i [inner]]
    else
      set (i + 1)
      return some []
  let t ← read
  let i ← get
  require (t.charAt i == '\x60')
  set (i + 1)
  return parts.flatten

def template (r : Readers) : Parser Cst :=
  spanned "template_string" do
    expectChar '\x60'
    templateRest r

def callArguments (r : Readers) : Parser Cst :=
  spanned "arguments" do
    expectOp "("
    commaItems ")" do
      let start ← nextIndex
      if ← acceptOp "..." then
        let value ← r.value
        return [← node "spread_element" start [value]]
      else return [← r.value]

def arrayLiteral (r : Readers) : Parser Cst :=
  spanned "array" do
    expectOp "["
    commaItems "]" do
      let start ← nextIndex
      if ← acceptOp "..." then
        let value ← r.value
        return [← node "spread_element" start [value]]
      else return [← r.value]

/-- A method, a pair, or a shorthand in an object. -/
def namedProperty (r : Readers) : Parser Cst := do
  let start ← nextIndex
  let _ ← memberHead
  let word ← wordAhead
  let name ← propertyName r
  match ← charAhead with
  | '(' => methodRest r start name false
  | '<' => methodRest r start name false
  | _ =>
      if ← acceptOp ":" then
        let value ← r.value
        node "pair" start [filling "key" name, filling "value" value]
      else
        require (word != "" && !reservedWords.contains word)
        let shorthand ← node "shorthand_property_identifier" start []
        if ← acceptOp "=" then
          let right ← r.value
          node "object_assignment_pattern" start [filling "left" shorthand, filling "right" right]
        else return shorthand

def objectLiteral (r : Readers) : Parser Cst :=
  spanned "object" do
    expectOp "\x7b"
    commaItems "\x7d" do
      let start ← nextIndex
      if ← acceptOp "..." then
        let value ← r.value
        return [← node "spread_element" start [value]]
      else return [← namedProperty r]

def parenthesized (r : Readers) : Parser Cst :=
  spanned "parenthesized_expression" do
    expectOp "("
    let inner ← r.anyValue
    let annotation ← optionalTypeAnnotation r
    expectOp ")"
    return inner :: annotation

/-- What a word stands for as an expression of its own. -/
def wordValue (word : String) : Parser Cst :=
  match word with
  | "this" => anyName "this"
  | "super" => anyName "super"
  | "null" => anyName "null"
  | "true" => anyName "true"
  | "false" => anyName "false"
  | "undefined" => anyName "undefined"
  | _ => identifier

def memberName : Parser Cst :=
  privateName <|> anyName "property_identifier"

/-- Whether type arguments that end here can stand without a call. -/
def endsInstantiation : Parser Bool := do
  let op ← operatorAhead
  return (← atEnd) || (← newlineAhead)
    || [")", "]", "\x7d", "\x7b", ",", ";", ":", ".", "?.", "=", "==", "===", "!=", "!==", "&&",
      "||", "??", "?"].contains op

/-- Type arguments behind an operand, with the call that follows them. -/
def genericSuffix (r : Readers) (start : Nat) (operand : Cst) : Parser Cst := do
  let types ← typeArguments r
  match ← charAhead with
  | '(' =>
      let arguments ← callArguments r
      node "call_expression" start [filling "function" operand, types, arguments]
  | '\x60' =>
      let arguments ← template r
      node "call_expression" start [filling "function" operand, types, arguments]
  | _ =>
      require (← endsInstantiation)
      node "instantiation_expression" start [operand, types]

/-- One suffix of an operand that starts at an index. Calls can be left to somebody else. -/
def suffix? (r : Readers) (start : Nat) (calls : Bool) (operand : Cst) : Parser (Option Cst) := do
  let newline ← newlineAhead
  match ← operatorAhead with
  | "." =>
      expectOp "."
      let property ← memberName
      some <$> node "member_expression" start
        [filling "object" operand, filling "property" property]
  | "?." =>
      if !calls then return none
      else
        expectOp "?."
        match ← charAhead with
        | '(' =>
            let arguments ← callArguments r
            some <$> node "call_expression" start [filling "function" operand, arguments]
        | '<' =>
            some <$> genericSuffix r start operand
        | '[' =>
            expectOp "["
            let index ← r.anyValue
            expectOp "]"
            some <$> node "subscript_expression" start
              [filling "object" operand, filling "index" index]
        | '\x60' =>
            let arguments ← template r
            some <$> node "call_expression" start [filling "function" operand, arguments]
        | _ =>
            let property ← memberName
            some <$> node "member_expression" start
              [filling "object" operand, filling "property" property]
  | "[" =>
      expectOp "["
      let index ← r.anyValue
      expectOp "]"
      some <$> node "subscript_expression" start [filling "object" operand, filling "index" index]
  | "(" =>
      if !calls then return none
      else
        let arguments ← callArguments r
        some <$> node "call_expression" start [filling "function" operand, arguments]
  | "!" =>
      if newline then return none
      else
        expectOp "!"
        some <$> node "non_null_expression" start [operand]
  | "++" =>
      if newline || !calls then return none
      else
        expectOp "++"
        some <$> node "update_expression" start [operand]
  | "--" =>
      if newline || !calls then return none
      else
        expectOp "--"
        some <$> node "update_expression" start [operand]
  | "<" => if calls then option (genericSuffix r start operand) else return none
  | _ =>
      if (← charAhead) == '\x60' && calls then
        let arguments ← template r
        some <$> node "call_expression" start [filling "function" operand, arguments]
      else return none

/-- A construction: the class with its members, and the arguments if there are any. -/
def newExpression (r : Readers) (primary : Parser Cst) : Parser Cst :=
  spanned "new_expression" do
    expectWord "new"
    if ← acceptOp "." then
      return [← anyName "meta_property"]
    else
      let start ← nextIndex
      let callee ← if (← wordAhead) == "new" then r (.operand false false) else primary
      let callee ← grow (suffix? r start false) callee
      let types ← optionalTypeArguments r
      let arguments ←
        if (← charAhead) == '(' then (do return [← callArguments r]) else pure []
      return filling "constructor" callee :: types ++ arguments

def primary (r : Readers) : Parser Cst := do
  match ← charAhead with
  | '(' => parenthesized r
  | '[' => arrayLiteral r
  | '\x7b' => objectLiteral r
  | '<' => r .element
  | '\x60' => template r
  | '"' => stringLiteral
  | '\'' => stringLiteral
  | '/' => leaf "regex" (lexeme Text.regexEnd)
  | '@' => classExpression r
  | '#' => privateName
  | c =>
      if c.isDigit || c == '.' then numberLiteral
      else
        match ← wordAhead with
        | "function" => function r .expression
        | "class" => classExpression r
        | "import" =>
            if (← charAfterWord) == '.' then
              leaf "meta_property" do
                expectWord "import"
                expectOp "."
                let _ ← anyName "property_identifier"
            else
              require ((← charAfterWord) == '(')
              anyName "import"
        | "async" =>
            if (← secondWordAhead) == "function" && !(← newlineAfterWord) then
              function r .expression
            else identifier
        | word => wordValue word

/-- An operand with its suffixes. A construction is an operand too, and so is an arrow; one that
ends with an expression has no suffixes left. -/
def suffixed (r : Readers) (loopHead arrowTypes : Bool) : Parser Cst := do
  let start ← nextIndex
  let head ←
    if ← arrowAhead then
      arrow r loopHead arrowTypes <|> primary r
    else if (← wordAhead) == "new" then newExpression r (primary r)
    else primary r
  grow (suffix? r start true) head

def operand (r : Readers) (loopHead arrowTypes : Bool) : Parser Cst := do
  let op ← operatorAhead
  let word ← wordAhead
  if unaryOperators.contains op then
    spanned "unary_expression" do
      expectOp op
      return [← r (.operand loopHead arrowTypes)]
  else if unaryWords.contains word && (← operatorAfterWord) != "=>" then
    let prefixed := spanned "unary_expression" do
      expectWord word
      return [← r (.operand loopHead arrowTypes)]
    if word == "await" then prefixed <|> suffixed r loopHead arrowTypes else prefixed
  else suffixed r loopHead arrowTypes

/-- Whether a type check or a cast follows. At the start of a line the word must be followed by
what can only be a type. -/
def castAhead : Parser Bool := do
  let word ← wordAhead
  let next ← charAfterWord
  let typed := (← secondWordAhead) != "" && !(← newlineAfterWord)
  return (word == "as" || word == "satisfies") && (!(← newlineAhead) || typed || next == '\x7b')

def chainLink? (r : Readers) (loopHead arrowTypes : Bool) (start : Nat) (left : Cst)
    : Parser (Option Cst) := do
  let op ← operatorAhead
  let word ← wordAhead
  if binaryOperators.contains op then
    expectOp op
    let right ← r (.operand loopHead arrowTypes)
    some <$> node "binary_expression" start [filling "left" left, filling "right" right]
  else if word == "instanceof" || (word == "in" && !loopHead) then
    expectWord word
    let right ← r (.operand loopHead arrowTypes)
    some <$> node "binary_expression" start [filling "left" left, filling "right" right]
  else if ← castAhead then
    expectWord word
    let target ← r .typeTerm
    some <$> node (word ++ "_expression") start [left, target]
  else return none

def chain (r : Readers) (loopHead arrowTypes : Bool) : Parser Cst := do
  let start ← nextIndex
  let first ← r (.operand loopHead arrowTypes)
  grow (chainLink? r loopHead arrowTypes start) first

mutual

/-- The pattern that an object or an array is when it is assigned to. -/
def asPattern : Cst → Cst
  | .node "object" field named start stop _ => .node "object_pattern" field named start stop []
  | .node "array" field named start stop items =>
      .node "array_pattern" field named start stop (asPatternList items)
  | .node "assignment_expression" field named start stop (left :: rest) =>
      .node "assignment_pattern" field named start stop (asPattern left :: rest)
  | n => n

/-- The patterns that the items of an array are. -/
def asPatternList : List Cst → List Cst
  | [] => []
  | n :: rest => asPattern n :: asPatternList rest

end

/-- The branches of a conditional that starts at an index, from the question mark on. An arrow in
the first branch gives up the type of its result if no colon is left otherwise. -/
def conditionalRest (r : Readers) (loopHead arrowTypes : Bool) (start : Nat) (condition : Cst)
    : Parser Cst := do
  expectOp "?"
  let branch (typed : Bool) : Parser Cst := do
    let consequence ← r (.assignment false typed)
    expectOp ":"
    return consequence
  let consequence ← branch true <|> branch false
  let alternative ← r (.assignment loopHead arrowTypes)
  node "ternary_expression" start
    [
      filling "condition" condition, filling "consequence" consequence,
      filling "alternative" alternative
    ]

/-- Whether the next token can start an expression on the same line. -/
def valueAhead : Parser Bool := do
  let op ← operatorAhead
  return !(← newlineAhead) && !(← atEnd)
    && (op == "" || unaryOperators.contains op
      || ["(", "[", "\x7b", "<", "/", "@", "#", "."].contains op)

def yieldExpression (r : Readers) (loopHead : Bool) : Parser Cst :=
  spanned "yield_expression" do
    expectWord "yield"
    if ← acceptOp "*" then return [← r (.assignment loopHead true)]
    else if ← valueAhead then return [← r (.assignment loopHead true)]
    else return []

/-- A chain that can be the condition of a conditional or the target of an assignment. -/
def chainOrAssignment (r : Readers) (loopHead arrowTypes : Bool) : Parser Cst := do
  let start ← nextIndex
  let left ← chain r loopHead arrowTypes
  let op ← operatorAhead
  if op == "?" then conditionalRest r loopHead arrowTypes start left
  else if assignmentOperators.contains op then
    expectOp op
    let right ← r (.assignment loopHead arrowTypes)
    let target := if op == "=" then asPattern left else left
    node "assignment_expression" start [filling "left" target, filling "right" right]
  else return left

def assignment (r : Readers) (loopHead arrowTypes : Bool) : Parser Cst := do
  if (← wordAhead) == "yield" && (← operatorAfterWord) != "=>" then
    yieldExpression r loopHead <|> chainOrAssignment r loopHead arrowTypes
  else chainOrAssignment r loopHead arrowTypes

def expression (r : Readers) (loopHead : Bool) : Parser Cst := do
  let start ← nextIndex
  let first ← r (.assignment loopHead true)
  let rest ← many do
    if ← acceptOp "," then return some (← r (.assignment loopHead true)) else return none
  if rest.isEmpty then return first else node "sequence_expression" start (first :: rest)

end JsxProvenance.Tsx
