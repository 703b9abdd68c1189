import JsxProvenance.Tsx.Grammar.Nonterminal

/-!
Types. Nothing inside of a type is of interest, so a type is read for its extent only and becomes
a node without children; bracketed groups are passed over as a whole.
-/

namespace JsxProvenance.Tsx

open JsxProvenance.Tsx.Parser

/-- Takes an operator of one character that is not the start of a longer one. -/
def acceptLone (c : Char) : Parser Bool := do
  if (← operatorAhead) == c.toString then
    take 1
    return true
  else return false

def acceptJoiner : Parser Bool := do
  if ← acceptLone '|' then return true else acceptLone '&'

def typeArguments (r : Readers) : Parser Cst :=
  leaf "type_arguments" do
    expectOp "<"
    let _ ← many do
      if (← charAhead) == '>' then return none
      else
        let _ ← r .typeTerm
        if !(← acceptOp ",") then require ((← charAhead) == '>')
        return some ()
    expectChar '>'

/-- One parameter of a generic definition, with its bound and its default. -/
def typeParameter (r : Readers) : Parser Unit := do
  let _ ← many do
    if ["const", "in", "out"].contains (← wordAhead) && (← secondWordAhead) != ""
        && (← secondWordAhead) != "extends" then
      let _ ← anyName "modifier"
      return some ()
    else return none
  let _ ← anyName "type_identifier"
  if ← acceptWord "extends" then
    let _ ← r .typeTerm
  if ← acceptOp "=" then
    let _ ← r .typeTerm

def typeParameters (r : Readers) : Parser Cst :=
  leaf "type_parameters" do
    expectOp "<"
    let _ ← many do
      if (← charAhead) == '>' then return none
      else
        typeParameter r
        if !(← acceptOp ",") then require ((← charAhead) == '>')
        return some ()
    expectChar '>'

/-- The parameters of a generic definition, if there are any. -/
def optionalTypeParameters (r : Readers) : Parser (List Cst) := do
  if (← charAhead) == '<' then return [← typeParameters r] else return []

def typeAnnotation (r : Readers) : Parser Cst :=
  leaf "type_annotation" do
    expectOp ":"
    let _ ← r .typeTerm

/-- A type after a colon, if there is one. -/
def optionalTypeAnnotation (r : Readers) : Parser (List Cst) := do
  if (← operatorAhead) == ":" then return [← typeAnnotation r] else return []

def functionTypeResult (r : Readers) : Parser Unit := do
  expectOp "=>"
  let _ ← r .typeTerm

/-- Type arguments, if a single opening angle bracket follows. -/
def optionalTypeArguments (r : Readers) : Parser (List Cst) := do
  if (← operatorAhead) == "<" then optional (do return [← typeArguments r]) else return []

def typeName (r : Readers) : Parser Unit := do
  let _ ← anyName "type_identifier"
  let _ ← many do
    if ← acceptOp "." then
      let _ ← anyName "type_identifier" <|> privateName
      return some ()
    else return none
  let _ ← optionalTypeArguments r

/-- The words that start no type although they are words. -/
def nonTypeWords : List String :=
  reservedWords.filter fun w =>
    w ∉ ["const", "enum", "false", "import", "new", "null", "this", "true", "typeof", "void"]

def wordType (r : Readers) (word : String) : Parser Unit := do
  require (!nonTypeWords.contains word)
  match word with
  | "new" =>
      expectWord "new"
      let _ ← optionalTypeParameters r
      group '('
      functionTypeResult r
  | "typeof" =>
      expectWord "typeof"
      if (← wordAhead) == "import" then
        let _ ← r .typeOperand
      else typeName r
  | "import" =>
      expectWord "import"
      group '('
      let _ ← many do
        if ← acceptOp "." then
          let _ ← anyName "type_identifier"
          return some ()
        else return none
      let _ ← optionalTypeArguments r
  | _ =>
      let second ← secondWordAhead
      let newline ← newlineAfterWord
      let next ← charAfterWord
      if ["keyof", "readonly", "unique", "infer", "asserts"].contains word && !newline
          && (second != "" && second != "is" && second != "extends"
            || "[(\x7b\x60\"'".toList.contains next) then
        let _ ← anyName "modifier"
        let _ ← r .typeOperand
        if word == "infer" && (← wordAhead) == "extends" then
          expectWord "extends"
          let _ ← r .typeOperand
      else if word == "abstract" && second == "new" then
        let _ ← anyName "modifier"
        let _ ← r .typeOperand
      else
        typeName r
        if (← wordAhead) == "is" && !(← newlineAhead) then
          expectWord "is"
          let _ ← r .typeTerm

def primaryType (r : Readers) : Parser Unit := do
  match ← charAhead with
  | '(' =>
      group '('
      if (← operatorAhead) == "=>" then functionTypeResult r
  | '<' =>
      let _ ← typeParameters r
      group '('
      functionTypeResult r
  | '\x7b' => group '\x7b'
  | '[' => group '['
  | '\x60' => group '\x60'
  | '"' =>
      let _ ← stringLiteral
  | '\'' =>
      let _ ← stringLiteral
  | '-' =>
      take 1
      let _ ← numberLiteral
  | c =>
      if c.isDigit || c == '.' then
        let _ ← numberLiteral
      else wordType r (← wordAhead)

/-- A type without operators, but with its suffixes in square brackets. -/
def typeOperand (r : Readers) : Parser Cst :=
  leaf "type" do
    primaryType r
    let _ ← many do
      if (← charAhead) == '[' && !(← newlineAhead) then
        group '['
        return some ()
      else return none

/-- Types joined by single bars and ampersands, which can also lead. -/
def joinedTypes (r : Readers) : Parser Unit := do
  let _ ← acceptJoiner
  let _ ← r .typeOperand
  let _ ← many do
    if ← acceptJoiner then
      let _ ← r .typeOperand
      return some ()
    else return none

/-- A type, with the branches of a conditional type. -/
def typeTerm (r : Readers) : Parser Cst :=
  leaf "type" do
    joinedTypes r
    let _ ← option do
      expectWord "extends"
      joinedTypes r
      let _ ← option do
        expectWord "extends"
        joinedTypes r
      expectOp "?"
      let _ ← r .typeTerm
      expectOp ":"
      let _ ← r .typeTerm

end JsxProvenance.Tsx
