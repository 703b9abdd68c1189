import JsxProvenance.Tsx.Grammar.Bindings

/-!
Functions, arrows, and classes with their members.
-/

namespace JsxProvenance.Tsx

open JsxProvenance.Tsx.Parser

/-- The parameters of a function in parentheses and the type of its result. -/
def signature (r : Readers) : Parser (List Cst) := do
  let types ← optionalTypeParameters r
  let params ← parameters r
  let result ← optionalTypeAnnotation r
  return types ++ [params] ++ result

/-- How a function is written in its place: as a statement, or as part of an expression. -/
inductive FunctionPlace where
  | statement
  | expression
  deriving DecidableEq, Repr

def functionKind : FunctionPlace → (generator : Bool) → String
  | .statement, false => "function_declaration"
  | .statement, true => "generator_function_declaration"
  | .expression, false => "function_expression"
  | .expression, true => "generator_function"

/-- A function. As a statement it has a name, and without a body it is only a signature. -/
def function (r : Readers) (place : FunctionPlace) : Parser Cst := do
  let start ← nextIndex
  let _ ← acceptWord "async"
  expectWord "function"
  let generator ← acceptOp "*"
  let name ←
    if (← wordAhead) == "" then pure []
    else (do return [filling "name" (← anyName "identifier")])
  require (place == .expression || !name.isEmpty)
  let head := name ++ (← signature r)
  if (← charAhead) == '\x7b' then
    let body ← r .block
    node (functionKind place generator) start (head ++ [filling "body" body])
  else
    require (place == .statement)
    semicolon
    node "function_signature" start head

def namedFunctionAhead : Parser Bool :=
  looksAhead do
    let _ ← acceptWord "async"
    expectWord "function"
    let _ ← acceptOp "*"
    return (← wordAhead) != ""

/-- What stands before the arrow: a name, or parameters with the type of the result. -/
def arrowHead (r : Readers) (arrowTypes : Bool) : Parser (List Cst) := do
  if (← operatorAfterWord) == "=>" then
    let name ← identifier
    return [filling "parameter" name]
  else
    let types ← optionalTypeParameters r
    let params ← parameters r
    let result ← if arrowTypes then optionalTypeAnnotation r else pure []
    return types ++ [params] ++ result

def arrow (r : Readers) (loopHead arrowTypes : Bool) : Parser Cst := do
  let start ← nextIndex
  if (← wordAhead) == "async" && (← operatorAfterWord) != "=>" then
    expectWord "async"
  let head ← arrowHead r arrowTypes
  expectOp "=>"
  let body ←
    if (← charAhead) == '\x7b' then r .block
    else r (.assignment loopHead arrowTypes)
  node "arrow_function" start (head ++ [filling "body" body])

def arrowAhead : Parser Bool := do
  match ← charAhead with
  | '(' => return true
  | '<' => return true
  | _ =>
      if (← operatorAfterWord) == "=>" then return true
      else
        let next ← charAfterWord
        return (← wordAhead) == "async"
          && (next == '(' || next == '<' || (← secondWordAhead) != "")

/-- The words that can stand in front of a member. -/
def memberModifiers : List String :=
  [
    "public", "private", "protected", "static", "override", "readonly", "abstract", "declare",
    "accessor", "async", "get", "set"
  ]

/-- Whether a character can start the name of a member. -/
def startsMemberName (c : Char) : Bool :=
  isNamePart c || "[\"'#*".toList.contains c

/-- Takes the words in front of the name of a member. -/
def memberHead : Parser (List String) := do
  let words ← many do
    let word ← wordAhead
    if memberModifiers.contains word && startsMemberName (← charAfterWord) then
      expectWord word
      return some word
    else return none
  let _ ← acceptOp "*"
  return words

/-- A method that starts at an index, from its parameters on. Without a body it is a signature,
which is only accepted in a class. -/
def methodRest (r : Readers) (start : Nat) (name : Cst) (inClass : Bool) : Parser Cst := do
  let head := filling "name" name :: (← signature r)
  if (← charAhead) == '\x7b' then
    let body ← r .block
    node "method_definition" start (head ++ [filling "body" body])
  else
    require inClass
    node "method_signature" start head

/-- A field that starts at an index, from its type on. -/
def fieldRest (r : Readers) (start : Nat) (name : Cst) : Parser Cst := do
  let _ ← acceptOp "!"
  let annotation ← optionalTypeAnnotation r
  let init ← initialValue r false
  require ((← operatorAhead) == ",") <|> semicolon
  let _ ← acceptOp ","
  node "public_field_definition" start (filling "name" name :: annotation ++ init)

/-- An index signature: a name and its type in square brackets, and a type. -/
def indexSignature (r : Readers) : Parser Cst :=
  leaf "index_signature" do
    let _ ← memberHead
    let t ← read
    let start ← nextIndex
    require (t.charAt start == '[')
    let word := (t.gap (start + 1)).1
    require (t.operatorAt (t.gap (t.nameEnd word)).1 == ":" && word < t.nameEnd word)
    group '['
    let _ ← typeAnnotation r

/-- A block that runs when the class is defined. -/
def staticBlock (r : Readers) : Parser Cst :=
  spanned "class_static_block" do
    expectWord "static"
    return [filling "body" (← r .block)]

def namedMember (r : Readers) : Parser Cst := do
  let start ← nextIndex
  let _ ← memberHead
  let name ← propertyName r
  let _ ← acceptOp "?"
  let c ← charAhead
  if c == '(' || c == '<' then methodRest r start name true else fieldRest r start name

/-- What the body of a class holds: members, with decorators as nodes of their own. -/
def classMember (r : Readers) : Parser (List Cst) := do
  if ← acceptOp ";" then return []
  else
    let marks ← decorators r
    if (← wordAhead) == "static" && (← charAfterWord) == '\x7b' then
      return marks ++ [← staticBlock r]
    else
      let member ← indexSignature r <|> namedMember r
      return marks ++ [member]

def classBody (r : Readers) : Parser Cst :=
  spanned "class_body" do
    expectOp "\x7b"
    let members ← many do
      if (← operatorAhead) == "\x7d" then return none else return some (← classMember r)
    expectOp "\x7d"
    return members.flatten

def classHeritage (r : Readers) : Parser (List Cst) := do
  let start ← nextIndex
  let extended ←
    if (← wordAhead) == "extends" then
      let clause ← spanned "extends_clause" do
        expectWord "extends"
        let value ← r (.operand false false)
        return filling "value" value :: (← optionalTypeArguments r)
      pure [clause]
    else pure []
  let implemented ←
    if (← wordAhead) == "implements" then
      let clause ← leaf "implements_clause" do
        expectWord "implements"
        let _ ← many do
          if (← charAhead) == '\x7b' then return none
          else
            let _ ← r .typeTerm
            let _ ← acceptOp ","
            return some ()
      pure [clause]
    else pure []
  if extended.isEmpty && implemented.isEmpty then return []
  else return [← node "class_heritage" start (extended ++ implemented)]

/-- A class from its keyword on. The node starts where its decorators start. -/
def classRest (r : Readers) (start : Nat) (marks : List Cst) (asExpression : Bool)
    : Parser Cst := do
  let isAbstract ← acceptWord "abstract"
  expectWord "class"
  let word ← wordAhead
  let name ←
    if word == "" || word == "extends" || word == "implements" then pure []
    else (do return [filling "name" (← anyName "type_identifier")])
  let types ← optionalTypeParameters r
  let heritage ← classHeritage r
  let body ← classBody r
  let kind :=
    if asExpression then "class"
    else if isAbstract then "abstract_class_declaration"
    else "class_declaration"
  node kind start (marks ++ name ++ types ++ heritage ++ [filling "body" body])

def classExpression (r : Readers) : Parser Cst := do
  let start ← nextIndex
  let marks ← decorators r
  classRest r start marks true

end JsxProvenance.Tsx
