import JsxProvenance.Cst.Node
import JsxProvenance.Tsx.Text

/-!
Parsers over a source text. A parser starts at an index, which is the end of the token before, and
gives a result with the index after it, or fails. Alternatives start again where the first of them
started.
-/

namespace JsxProvenance.Tsx

/-- A parser of a source text. -/
abbrev Parser := ReaderT Text (StateT Nat Option)

namespace Parser

/-- The result of a parser on a whole text, if it succeeds. -/
def run? {α : Type} (p : Parser α) (t : Text) : Option (α × Nat) :=
  (ReaderT.run p t).run 0

def nextIndex : Parser Nat := do
  return ((← read).gap (← get)).1

def newlineAhead : Parser Bool := do
  return ((← read).gap (← get)).2

def charAhead : Parser Char := do
  return (← read).charAt (← nextIndex)

def atEnd : Parser Bool := do
  return (← read).size ≤ (← nextIndex)

/-- The next token if it is an operator or a bracket, else the empty text. -/
def operatorAhead : Parser String := do
  return (← read).operatorAt (← nextIndex)

/-- The next token if it is a word, else the empty text. -/
def wordAhead : Parser String := do
  return (← read).nameAt (← nextIndex)

/-- The token after the next one if both are words, else the empty text. -/
def secondWordAhead : Parser String := do
  let t ← read
  let stop := t.nameEnd (← nextIndex)
  return t.nameAt (t.gap stop).1

/-- The character after the next word and the gap behind it. -/
def charAfterWord : Parser Char := do
  let t ← read
  let stop := t.nameEnd (← nextIndex)
  return t.charAt (t.gap stop).1

def operatorAfterWord : Parser String := do
  let t ← read
  let stop := t.nameEnd (← nextIndex)
  return t.operatorAt (t.gap stop).1

def newlineAfterWord : Parser Bool := do
  let t ← read
  let stop := t.nameEnd (← nextIndex)
  return (t.gap stop).2

def take (count : Nat) : Parser Unit := do
  set ((← nextIndex) + count)

def require (b : Bool) : Parser Unit :=
  if b then pure () else failure

/-- Takes an operator if it is the next token. -/
def acceptOp (op : String) : Parser Bool := do
  if (← operatorAhead) == op then
    take op.length
    return true
  else return false

def expectOp (op : String) : Parser Unit := do
  require (← acceptOp op)

/-- Takes a single character of a token, whatever follows it. -/
def expectChar (c : Char) : Parser Unit := do
  require ((← charAhead) == c)
  take 1

/-- Takes a single character if the next token starts with it. -/
def acceptChar (c : Char) : Parser Bool := do
  if (← charAhead) == c then
    take 1
    return true
  else return false

/-- Takes characters if the next token starts with them. -/
def acceptText (text : String) : Parser Bool := do
  if (← read).matchesAt (← nextIndex) text.toList then
    take text.length
    return true
  else return false

/-- Takes the characters of a token, whatever follows them. -/
def expectText (text : String) : Parser Unit := do
  require (← acceptText text)

/-- Takes a word if it is the next token. -/
def acceptWord (word : String) : Parser Bool := do
  if (← wordAhead) == word then
    take word.length
    return true
  else return false

def expectWord (word : String) : Parser Unit := do
  require (← acceptWord word)

/-- The node of everything between an index and the end of the last token. -/
def node (kind : String) (start : Nat) (children : List Cst) : Parser Cst := do
  let t ← read
  return .node kind none true (t.offset start) (t.offset (← get)) children

def spanned (kind : String) (p : Parser (List Cst)) : Parser Cst := do
  let start ← nextIndex
  let children ← p
  node kind start children

/-- The node without children of what a parser takes. -/
def leaf (kind : String) (p : Parser Unit) : Parser Cst :=
  spanned kind (do p; return [])

/-- Takes a token that ends where the text says, if it says so. -/
def lexeme (stop : Text → Nat → Option Nat) : Parser Unit := do
  let start ← nextIndex
  match stop (← read) start with
  | some i =>
      require (start < i)
      set i
  | none => failure

/-- The result of a parser if it succeeds. If it fails nothing is taken. -/
def option {α : Type} (p : Parser α) : Parser (Option α) :=
  (some <$> p) <|> pure none

/-- What a parser says about the text ahead. Nothing is taken, and failure says no. -/
def looksAhead (p : Parser Bool) : Parser Bool := do
  let here ← get
  let answer ← p <|> pure false
  set here
  return answer

/-- The results of a parser if it succeeds, else none. -/
def optional (p : Parser (List Cst)) : Parser (List Cst) :=
  p <|> pure []

/-- Repeats a parser until it gives nothing, but at most a number of times. -/
def collect {α : Type} (p : Parser (Option α)) : Nat → Parser (List α)
  | 0 => pure []
  | fuel + 1 => do
      match ← p with
      | some a => return a :: (← collect p fuel)
      | none => return []

def many {α : Type} (p : Parser (Option α)) : Parser (List α) := do
  collect p ((← read).size + 1)

/-- Extends a result until nothing extends it, but at most a number of times. -/
def extend {α : Type} (p : α → Parser (Option α)) : Nat → α → Parser α
  | 0, a => pure a
  | fuel + 1, a => do
      match ← p a with
      | some b => extend p fuel b
      | none => return a

def grow {α : Type} (p : α → Parser (Option α)) (a : α) : Parser α := do
  extend p ((← read).size + 1) a

/-- Takes items up to a closing operator, with commas between them. An item can be missing. -/
def commaItems (closing : String) (item : Parser (List Cst)) : Parser (List Cst) := do
  let items ← many do
    if (← operatorAhead) == closing then return none
    else if ← acceptOp "," then return some []
    else
      let children ← item
      require ((← operatorAhead) == "," || (← operatorAhead) == closing)
      return some children
  expectOp closing
  return items.flatten

end Parser

/-- The same node, filling a field of its parent. -/
def filling (name : String) : Cst → Cst
  | .node kind _ named start stop children => .node kind (some name) named start stop children

def reservedWords : List String :=
  [
    "break", "case", "catch", "class", "const", "continue", "debugger", "default", "delete", "do",
    "else", "enum", "export", "extends", "false", "finally", "for", "function", "if", "import",
    "in", "instanceof", "new", "null", "return", "super", "switch", "this", "throw", "true",
    "try", "typeof", "var", "void", "while", "with"
  ]

namespace Parser

def anyName (kind : String) : Parser Cst :=
  leaf kind (lexeme fun t i => some (t.nameEnd i))

def identifier : Parser Cst := do
  require (!reservedWords.contains (← wordAhead))
  anyName "identifier"

/-- A private name, with the mark in front of it. -/
def privateName : Parser Cst :=
  leaf "private_property_identifier" (lexeme fun t i =>
    if t.charAt i == '#' then some (t.nameEnd (i + 1)) else none)

def stringLiteral : Parser Cst :=
  leaf "string" (lexeme fun t i =>
    if t.charAt i == '"' || t.charAt i == '\'' then t.stringEnd i else none)

def numberLiteral : Parser Cst :=
  leaf "number" (lexeme fun t i =>
    if (t.charAt i).isDigit || t.charAt i == '.' && (t.charAt (i + 1)).isDigit then
      some (t.numberEnd i)
    else none)

/-- A bracketed group that is passed over as a whole. -/
def group (opening : Char) : Parser Unit := do
  require ((← charAhead) == opening)
  lexeme fun t i => t.groupEnd i

/-- The end of a statement: a semicolon, or what stands for it, a closing brace, the end of the
text or the end of a line. -/
def semicolon : Parser Unit := do
  if ← acceptOp ";" then return ()
  else require ((← operatorAhead) == "\x7d" || (← atEnd) || (← newlineAhead))

end Parser
end JsxProvenance.Tsx
