import JsxProvenance.Tsx.Grammar.Expressions

/-!
Statements and declarations, without those that cross the borders of a file.
-/

namespace JsxProvenance.Tsx

open JsxProvenance.Tsx.Parser

def block (r : Readers) : Parser Cst :=
  spanned "statement_block" do
    expectOp "\x7b"
    let statements ← many do
      if (← operatorAhead) == "\x7d" || (← atEnd) then return none
      else return some (← r .statement)
    expectOp "\x7d"
    return statements

def expressionStatement (r : Readers) : Parser Cst :=
  spanned "expression_statement" do
    let value ← r.anyValue
    semicolon
    return [value]

def condition (r : Readers) : Parser Cst :=
  spanned "parenthesized_expression" do
    expectOp "("
    let inner ← r.anyValue
    expectOp ")"
    return [inner]

/-- One variable with its type and its initial value. -/
def declarator (r : Readers) (loopHead : Bool) : Parser Cst :=
  spanned "variable_declarator" do
    let name ← r .binding
    let _ ← acceptOp "!"
    let annotation ← optionalTypeAnnotation r
    let init ← initialValue r loopHead
    return filling "name" name :: annotation ++ init

def declaringWord : Parser Cst := do
  let word ← wordAhead
  require (["var", "let", "const"].contains word)
  let t ← read
  let start ← nextIndex
  expectWord word
  return .node word none false (t.offset start) (t.offset (← get)) []

def variableList (r : Readers) (loopHead : Bool) : Parser (List Cst) := do
  let word ← declaringWord
  let first ← declarator r loopHead
  let rest ← many do
    if ← acceptOp "," then return some (← declarator r loopHead) else return none
  return word :: first :: rest

def variableKind (word : String) : String :=
  if word == "var" then "variable_declaration" else "lexical_declaration"

def variableDeclaration (r : Readers) : Parser Cst := do
  spanned (variableKind (← wordAhead)) do
    let children ← variableList r false
    semicolon
    return children

def ifStatement (r : Readers) : Parser Cst :=
  spanned "if_statement" do
    expectWord "if"
    let test ← condition r
    let consequence ← r .statement
    let alternative ←
      if (← wordAhead) == "else" then
        let clause ← spanned "else_clause" do
          expectWord "else"
          return [← r .statement]
        pure [filling "alternative" clause]
      else pure []
    return filling "condition" test :: filling "consequence" consequence :: alternative

/-- The head of a loop over the members of something. -/
def memberLoopHead (r : Readers) : Parser (List Cst) := do
  expectOp "("
  let left ←
    if ["var", "let", "const"].contains (← wordAhead)
        && (← operatorAfterWord) != "=" && (← secondWordAhead) != "of"
        && (← secondWordAhead) != "in" then
      let _ ← declaringWord
      let name ← r .binding
      let annotation ← optionalTypeAnnotation r
      let init ← initialValue r true
      pure (filling "left" name :: annotation ++ init)
    else
      let target ← r (.operand true false)
      pure [filling "left" (asPattern target)]
  require (["of", "in"].contains (← wordAhead))
  let _ ← anyName "operator"
  let right ← r.anyValue
  expectOp ")"
  return left ++ [filling "right" right]

def loopPart (r : Readers) (loopHead : Bool) : Parser (List Cst) := do
  if ← acceptOp ";" then return []
  else
    let value ← r (.expression loopHead)
    expectOp ";"
    return [value]

def countingLoopHead (r : Readers) : Parser (List Cst) := do
  expectOp "("
  let word ← wordAhead
  let init ←
    if ["var", "let", "const"].contains word then
      let declaration ← spanned (variableKind word) do
        let children ← variableList r true
        expectOp ";"
        return children
      pure [declaration]
    else loopPart r true
  let test ← loopPart r false
  let step ← if (← operatorAhead) == ")" then pure [] else (do return [← r.anyValue])
  expectOp ")"
  return init ++ test ++ step

def forStatement (r : Readers) : Parser Cst := do
  let start ← nextIndex
  expectWord "for"
  let _ ← acceptWord "await"
  let members ← option (memberLoopHead r)
  match members with
  | some head =>
      let body ← r .statement
      node "for_in_statement" start (head ++ [filling "body" body])
  | none =>
      let head ← countingLoopHead r
      let body ← r .statement
      node "for_statement" start (head ++ [filling "body" body])

def whileStatement (r : Readers) : Parser Cst :=
  spanned "while_statement" do
    expectWord "while"
    let test ← condition r
    return [filling "condition" test, filling "body" (← r .statement)]

def doStatement (r : Readers) : Parser Cst :=
  spanned "do_statement" do
    expectWord "do"
    let body ← r .statement
    expectWord "while"
    let test ← condition r
    let _ ← acceptOp ";"
    return [filling "body" body, filling "condition" test]

def caseBody (r : Readers) : Parser (List Cst) :=
  many do
    let word ← wordAhead
    let op ← operatorAhead
    if op == "\x7d" || word == "case" || word == "default" || (← atEnd) then return none
    else return some (← r .statement)

def switchCase (r : Readers) : Parser Cst := do
  let start ← nextIndex
  if ← acceptWord "default" then
    expectOp ":"
    node "switch_default" start (← caseBody r)
  else
    expectWord "case"
    let value ← r.anyValue
    expectOp ":"
    node "switch_case" start (filling "value" value :: (← caseBody r))

def switchStatement (r : Readers) : Parser Cst :=
  spanned "switch_statement" do
    expectWord "switch"
    let value ← condition r
    let body ← spanned "switch_body" do
      expectOp "\x7b"
      let cases ← many do
        if (← operatorAhead) == "\x7d" then return none else return some (← switchCase r)
      expectOp "\x7d"
      return cases
    return [filling "value" value, filling "body" body]

/-- The part of a guarded block that handles what was thrown. -/
def catchClause (r : Readers) : Parser Cst :=
  spanned "catch_clause" do
    expectWord "catch"
    let caught ←
      if ← acceptOp "(" then
        let name ← r .binding
        let annotation ← optionalTypeAnnotation r
        expectOp ")"
        pure (filling "parameter" name :: annotation)
      else pure []
    return caught ++ [filling "body" (← r .block)]

def tryStatement (r : Readers) : Parser Cst :=
  spanned "try_statement" do
    expectWord "try"
    let body ← r .block
    let handler ←
      if (← wordAhead) == "catch" then (do return [filling "handler" (← catchClause r)])
      else pure []
    let finalizer ←
      if (← wordAhead) == "finally" then
        let clause ← spanned "finally_clause" do
          expectWord "finally"
          return [filling "body" (← r .block)]
        pure [filling "finalizer" clause]
      else pure []
    return filling "body" body :: handler ++ finalizer

/-- Whether a statement that can stop after its first word stops there. On the same line it stops
at a semicolon or a closing brace. On another line it goes on only with what cannot start a
statement of its own. -/
def stopsAfterWord : Parser Bool := do
  let op ← operatorAhead
  let word ← wordAhead
  if op == ";" || op == "\x7d" || (← atEnd) then return true
  else if ← newlineAhead then
    let goesOn :=
      (["<", "/", ".", "+", "-", "*", "%", "=", "?", "^", "|", "&", ",", ":"].any fun start =>
        op.startsWith start) || (← charAhead) == '\x60' || op == "!=" || op == "!=="
    return !((goesOn && op != "++" && op != "--") || word == "in" || word == "instanceof")
  else return false

def returnStatement (r : Readers) : Parser Cst :=
  spanned "return_statement" do
    expectWord "return"
    let value ← if ← stopsAfterWord then pure [] else (do return [← r.anyValue])
    semicolon
    return value

def throwStatement (r : Readers) : Parser Cst :=
  spanned "throw_statement" do
    expectWord "throw"
    let value ← r.anyValue
    semicolon
    return [value]

def jumpStatement (word kind : String) : Parser Cst :=
  spanned kind do
    expectWord word
    let label ← if ← stopsAfterWord then pure [] else (do return [← anyName "statement_identifier"])
    semicolon
    return label

def labeledStatement (r : Readers) : Parser Cst :=
  spanned "labeled_statement" do
    let label ← anyName "statement_identifier"
    expectOp ":"
    return [label, ← r .statement]

def typeAlias (r : Readers) : Parser Cst :=
  spanned "type_alias_declaration" do
    expectWord "type"
    let name ← anyName "type_identifier"
    let types ← optionalTypeParameters r
    expectOp "="
    let value ← r .typeTerm
    semicolon
    return filling "name" name :: types ++ [filling "value" value]

/-- An interface. Its body is passed over. -/
def interface (r : Readers) : Parser Cst :=
  spanned "interface_declaration" do
    expectWord "interface"
    let name ← anyName "type_identifier"
    let types ← optionalTypeParameters r
    let _ ← many do
      if (← charAhead) == '\x7b' then return none
      else
        if !(← acceptWord "extends") then expectOp ","
        let _ ← r .typeTerm
        return some ()
    let body ← leaf "interface_body" (group '\x7b')
    return filling "name" name :: types ++ [filling "body" body]

def enumeration (r : Readers) : Parser Cst :=
  spanned "enum_declaration" do
    let _ ← acceptWord "const"
    expectWord "enum"
    let name ← anyName "identifier"
    let body ← spanned "enum_body" do
      expectOp "\x7b"
      commaItems "\x7d" do
        let start ← nextIndex
        let member ← propertyName r
        let init ← initialValue r false
        if init.isEmpty then return [filling "name" member]
        else return [← node "enum_assignment" start (filling "name" member :: init)]
    return [filling "name" name, filling "body" body]

/-- A name space or a module, with its body. -/
def moduleDeclaration (r : Readers) : Parser Cst :=
  spanned "internal_module" do
    require (["namespace", "module"].contains (← wordAhead))
    let _ ← anyName "keyword"
    let c ← charAhead
    if c == '"' || c == '\'' then
      let name ← stringLiteral
      if (← charAhead) == '\x7b' then return [name, ← r .block]
      else
        semicolon
        return [name]
    else
      let start ← nextIndex
      let name ← grow (fun object => do
        if ← acceptOp "." then
          let property ← anyName "property_identifier"
          return some (← node "nested_identifier" start
            [filling "object" object, filling "property" property])
        else return none) (← anyName "identifier")
      return [name, ← r .block]

def ambient (r : Readers) : Parser Cst :=
  spanned "ambient_declaration" do
    expectWord "declare"
    if ← acceptWord "global" then return [← r .block]
    else
      require ((← wordAhead) != "")
      return [← r .statement]

def classStatement (r : Readers) : Parser Cst := do
  let start ← nextIndex
  let marks ← decorators r
  classRest r start marks false

/-- A statement that starts with a word which is no keyword, or not always one. -/
def wordStatement (r : Readers) (word : String) : Parser Cst := do
  let second ← secondWordAhead
  let next ← charAfterWord
  let newline ← newlineAfterWord
  let plain := expressionStatement r
  match word with
  | "async" =>
      if second == "function" && !newline && (← namedFunctionAhead) then function r .statement
      else plain
  | "abstract" => if second == "class" then classStatement r else plain
  | "type" => if second != "" then typeAlias r <|> plain else plain
  | "interface" => if second != "" then interface r <|> plain else plain
  | "enum" => enumeration r
  | "namespace" => if second != "" then moduleDeclaration r <|> plain else plain
  | "module" =>
      if second != "" || next == '"' || next == '\'' then moduleDeclaration r <|> plain else plain
  | "declare" => if second != "" && !newline then ambient r <|> plain else plain
  | "let" =>
      if (second != "" && second != "in" && second != "instanceof") || next == '['
          || next == '\x7b' then
        variableDeclaration r
      else plain
  | _ =>
      if (← operatorAfterWord) == ":" && !reservedWords.contains word then labeledStatement r
      else plain

/-- A statement that does not cross the borders of a file. -/
def innerStatement (r : Readers) : Parser Cst := do
  match ← charAhead with
  | '\x7b' => block r
  | ';' => spanned "empty_statement" (do expectOp ";"; return [])
  | '@' => classStatement r
  | _ =>
      match ← wordAhead with
      | "" => expressionStatement r
      | "var" => variableDeclaration r
      | "const" =>
          if (← secondWordAhead) == "enum" then enumeration r else variableDeclaration r
      | "function" =>
          if ← namedFunctionAhead then function r .statement else expressionStatement r
      | "class" =>
          if ["", "extends"].contains (← secondWordAhead) then expressionStatement r
          else classStatement r
      | "if" => ifStatement r
      | "for" => forStatement r
      | "while" => whileStatement r
      | "do" => doStatement r
      | "switch" => switchStatement r
      | "try" => tryStatement r
      | "return" => returnStatement r
      | "throw" => throwStatement r
      | "break" => jumpStatement "break" "break_statement"
      | "continue" => jumpStatement "continue" "continue_statement"
      | "debugger" => jumpStatement "debugger" "debugger_statement"
      | "with" => spanned "with_statement" do
          expectWord "with"
          let object ← condition r
          return [filling "object" object, filling "body" (← r .statement)]
      | word => wordStatement r word

end JsxProvenance.Tsx
