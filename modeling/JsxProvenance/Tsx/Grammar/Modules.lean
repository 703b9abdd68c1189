import JsxProvenance.Tsx.Grammar.Statements
import JsxProvenance.Fragment.Aliases

/-!
Imports and exports, and the grammar as a whole.
-/

namespace JsxProvenance.Tsx

open JsxProvenance.Tsx.Parser

/-- A name in a list of imports or exports. -/
def exchangedName : Parser Cst :=
  stringLiteral <|> anyName "identifier"

/-- A name, perhaps with another one that it gets, up to the end of its place in the list. -/
def listedName : Parser (List Cst) := do
  let name ← exchangedName
  let localName ←
    if ← acceptWord "as" then (do return [filling "alias" (← exchangedName)]) else pure []
  require ([",", "\x7d"].contains (← operatorAhead))
  return filling "name" name :: localName

/-- One name of a list, with the name it gets. A word in front that marks it as a type is only
taken if the rest would be no name without it. -/
def exchange (kind : String) : Parser Cst :=
  spanned kind do
    listedName <|> do
      require (["type", "typeof"].contains (← wordAhead))
      let _ ← anyName "modifier"
      listedName

def exchanges (listKind kind : String) : Parser Cst :=
  spanned listKind do
    expectOp "\x7b"
    commaItems "\x7d" (do return [← exchange kind])

def namespaceImport : Parser Cst :=
  spanned "namespace_import" do
    expectOp "*"
    expectWord "as"
    return [← anyName "identifier"]

def importClause : Parser Cst :=
  spanned "import_clause" do
    match ← operatorAhead with
    | "*" => return [← namespaceImport]
    | "\x7b" => return [← exchanges "named_imports" "import_specifier"]
    | _ =>
        let default ← anyName "identifier"
        if ← acceptOp "," then
          let others ←
            if (← operatorAhead) == "*" then namespaceImport
            else exchanges "named_imports" "import_specifier"
          return [default, others]
        else return [default]

def fromClause : Parser Cst := do
  expectWord "from"
  asField "source" stringLiteral

def importAttributes : Parser (List Cst) := do
  if ["with", "assert"].contains (← wordAhead) && (← charAfterWord) == '\x7b' then
    let attributes ← leaf "import_attribute" do
      let _ ← anyName "keyword"
      group '\x7b'
    return [attributes]
  else return []

/-- What follows the keyword of an import: a module alone, a clause and a module, or a name for
what a call or a path gives. -/
def importRest : Parser (List Cst) := do
  let c ← charAhead
  if c == '"' || c == '\'' then return [filling "source" (← stringLiteral)]
  else
    let clause : Parser (List Cst) := do
      let clause ← importClause
      return [clause, ← fromClause]
    let required : Parser (List Cst) := do
      let clause ← spanned "import_require_clause" do
        let name ← anyName "identifier"
        expectOp "="
        expectWord "require"
        expectOp "("
        let source ← asField "source" stringLiteral
        expectOp ")"
        return [name, source]
      return [clause]
    let marked : Parser (List Cst) := do
      require (["type", "typeof"].contains (← wordAhead))
      let _ ← anyName "modifier"
      clause <|> required
    clause <|> required <|> marked

def importAlias : Parser Cst :=
  spanned "import_alias" do
    expectWord "import"
    let _ ← option do
      require ((← wordAhead) == "type" && (← secondWordAhead) != "")
      anyName "modifier"
    let name ← anyName "identifier"
    expectOp "="
    let start ← nextIndex
    let path ← grow (fun object => do
      if ← acceptOp "." then
        let property ← anyName "property_identifier"
        return some (← node "nested_identifier" start
          [filling "object" object, filling "property" property])
      else return none) (← anyName "identifier")
    semicolon
    return [name, path]

def importStatement : Parser Cst :=
  (spanned "import_statement" do
    expectWord "import"
    let children ← importRest
    let attributes ← importAttributes
    semicolon
    return children ++ attributes) <|> importAlias

def declaration (r : Readers) : Parser Cst := do
  let word ← wordAhead
  let second ← secondWordAhead
  match word with
  | "import" => importAlias
  | "const" => innerStatement r
  | "async" =>
      require (second == "function")
      innerStatement r
  | _ =>
      require ((← charAhead) == '@'
        || ["var", "let", "function", "class", "abstract", "type", "interface", "enum", "namespace",
          "module", "declare"].contains word)
      innerStatement r

/-- What is exported by default: a function or a class with a name, an interface, or a value. -/
def exportedDefault (r : Readers) : Parser (List Cst) := do
  let named : Parser Cst := do
    let start ← nextIndex
    let marks ← decorators r
    match ← wordAhead with
    | "class" =>
        let unnamed := ["", "extends", "implements"].contains (← secondWordAhead)
        classRest r start marks unnamed
    | "abstract" =>
        require ((← secondWordAhead) == "class")
        classRest r start marks false
    | "interface" =>
        require ((← secondWordAhead) != "")
        interface r
    | "function" => function r .statement
    | _ =>
        require ((← wordAhead) == "async" && (← secondWordAhead) == "function")
        function r .statement
  let value : Parser Cst := do
    let value ← r.anyValue
    semicolon
    return value
  return [← named <|> value]

def exportRest (r : Readers) : Parser (List Cst) := do
  let source : Parser (List Cst) := do
    let source ← if (← wordAhead) == "from" then (do return [← fromClause]) else pure []
    let attributes ← importAttributes
    semicolon
    return source ++ attributes
  let all : Parser (List Cst) := do
    expectOp "*"
    let name ←
      if ← acceptWord "as" then
        (do return [← spanned "namespace_export" (do return [← exchangedName])])
      else pure []
    return name ++ (← source)
  let listed : Parser (List Cst) := do
    return (← exchanges "export_clause" "export_specifier") :: (← source)
  match ← operatorAhead with
  | "*" => all
  | "\x7b" => listed
  | "=" =>
      expectOp "="
      let value ← r.anyValue
      semicolon
      return [value]
  | _ =>
      match ← wordAhead with
      | "default" =>
          expectWord "default"
          exportedDefault r
      | "as" =>
          expectWord "as"
          expectWord "namespace"
          let name ← anyName "identifier"
          semicolon
          return [name]
      | "type" =>
          let next ← charAfterWord
          if next == '*' || next == '\x7b' then
            expectWord "type"
            if next == '*' then all else listed
          else return [← declaration r]
      | _ => return [← declaration r]

/-- An export, whose decorators stand in front of its keyword. -/
def exportStatement (r : Readers) : Parser Cst :=
  spanned exportKind do
    let marks ← decorators r
    expectWord "export"
    return marks ++ (← exportRest r)

def statement (r : Readers) : Parser Cst := do
  let next ← charAfterWord
  match ← wordAhead with
  | "import" => if next == '(' || next == '.' then expressionStatement r else importStatement
  | "export" => exportStatement r
  | _ =>
      if (← charAhead) == '@' then innerStatement r <|> exportStatement r
      else innerStatement r

/-- Reads each nonterminal with readers for those inside of it. -/
def readersAbove (r : Readers) : Readers
  | .statement => statement r
  | .block => block r
  | .expression loopHead => expression r loopHead
  | .assignment loopHead arrowTypes => assignment r loopHead arrowTypes
  | .operand loopHead arrowTypes => operand r loopHead arrowTypes
  | .typeTerm => typeTerm r
  | .typeOperand => typeOperand r
  | .binding => binding r
  | .element => element r

/-- Readers for syntax that is nested no deeper than a bound. -/
def readersTo : Nat → Readers
  | 0 => fun _ => failure
  | depth + 1 => readersAbove (readersTo depth)

/-- The first line of a script that names its interpreter. -/
def interpreterLine : Parser (List Cst) := do
  let t ← read
  if t.charAt 0 == '#' && t.charAt 1 == '!' then
    set (t.endOf (!isLineEnd ·) 0)
    return [← node "hash_bang_line" 0 []]
  else return []

def file (r : Readers) : Parser Cst := do
  let line ← interpreterLine
  let statements ← many do
    if ← atEnd then return none else return some (← r .statement)
  require (← atEnd)
  node "program" 0 (line ++ statements)

/-- Each level of nesting takes at least one character and goes through few nonterminals. -/
def nestingBound (t : Text) : Nat :=
  8 * t.size + 8

/-- The concrete tree of a source text, if it follows the grammar. -/
def parse? (bytes : List UInt8) : Option Cst :=
  let t := Text.ofBytes bytes
  ((file (readersTo (nestingBound t))).run? t).map (·.1)

/-- The concrete tree of a source text that does not follow the grammar. Nothing is found in it. -/
def errorTree (bytes : List UInt8) : Cst :=
  .node "program" none true 0 bytes.length
    [.node "ERROR" none true 0 bytes.length []]

end JsxProvenance.Tsx
