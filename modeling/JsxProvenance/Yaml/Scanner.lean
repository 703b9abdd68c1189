import JsxProvenance.Yaml.Token

/-!
The state of reading tokens: the text that is left, the place in it, the open indentations, and
the tokens that may turn out to be keys.
-/

namespace JsxProvenance.Yaml

def isBreak (c : Char) : Bool :=
  c == '\n' || c == '\r' || c == '\u0085' || c == '\u2028' || c == '\u2029'

/-- Whether a character ends a line or the text. NUL stands for the end of the text. -/
def isBreakOrEnd (c : Char) : Bool :=
  c == '\x00' || isBreak c

/-- Whether a character separates tokens, or ends the text. -/
def isGapOrEnd (c : Char) : Bool :=
  c == ' ' || c == '\t' || isBreakOrEnd c

/-- Whether a character can be part of the name of an anchor or a directive. -/
def isWordChar (c : Char) : Bool :=
  c.isAlphanum || c == '-' || c == '_'

/-- A token that may turn out to be a key. -/
structure KeyCandidate where
  /-- The number of tokens before it. -/
  position : Nat
  /-- The token must be a key, since it stands where a block mapping goes on. -/
  required : Bool
  index : Nat
  line : Nat
  column : Nat
  deriving Repr, Inhabited

/-- The state of reading tokens. -/
structure Scan where
  rest : List Char
  index : Nat := 0
  line : Nat := 0
  column : Nat := 0
  /-- The number of open flow collections. -/
  flow : Nat := 0
  /-- The column of the innermost open block collection, one more than it, zero for none. -/
  indent : Nat := 0
  outer : List Nat := []
  allowKey : Bool := true
  /-- The candidates, each with its flow level. -/
  candidates : List (Nat × KeyCandidate) := []
  /-- The tokens so far, the last one first. -/
  tokens : List Token := []
  deriving Repr, Inhabited

/-- A reader of tokens. It fails where the text is no YAML. -/
abbrev Scanner := StateT Scan Option

namespace Scanner

/-- The character at a distance, NUL after the end. -/
def peek (distance : Nat) : Scanner Char := do
  return (← get).rest[distance]?.getD '\x00'

/-- Whether the text goes on with three given characters, at the start of a separate word. -/
def documentMark (c : Char) : Scanner Bool := do
  let s ← get
  return s.rest.take 3 == [c, c, c] && isGapOrEnd (s.rest[3]?.getD '\x00')

def documentBorder : Scanner Bool := do
  return (← documentMark '-') || (← documentMark '.')

def next (s : Scan) : Scan :=
  match s.rest with
  | [] => s
  | c :: rest =>
      if isBreak c && !(c == '\r' && rest.head? == some '\n') then
        { s with rest, index := s.index + 1, line := s.line + 1, column := 0 }
      else
        {
          s with
          rest
          index := s.index + 1
          column := if c == '\uFEFF' then s.column else s.column + 1
        }

def forward (count : Nat) : Scanner Unit :=
  modify fun s => count.repeat next s

def require (b : Bool) : Scanner Unit :=
  if b then pure () else failure

def takeWhile (p : Char → Bool) : Scanner (List Char) := do
  let taken := (← get).rest.takeWhile p
  forward taken.length
  return taken

def skipSpaces : Scanner Unit := do
  let _ ← takeWhile (· == ' ')

/-- Takes the end of a line. The result is empty if there is none. -/
def lineBreak : Scanner (List Char) := do
  let c ← peek 0
  if c == '\r' && (← peek 1) == '\n' then
    forward 2
    return ['\n']
  else if c == '\n' || c == '\r' || c == '\u0085' then
    forward 1
    return ['\n']
  else if isBreak c then
    forward 1
    return [c]
  else return []

/-- Repeats a step until it gives nothing, at most once for each character and once more. -/
def collect {α : Type} (step : Scanner (Option (List α))) : Scanner (List α) := do
  let rec go : Nat → Scanner (List α)
    | 0 => pure []
    | fuel + 1 => do
        match ← step with
        | some items => return items ++ (← go fuel)
        | none => return []
  go ((← get).rest.length + 1)

def emit (t : Token) : Scanner Unit :=
  modify fun s => { s with tokens := t :: s.tokens }

/-- Puts a token in front of those after the first ones. -/
def emitAt (position : Nat) (t : Token) : Scanner Unit :=
  modify fun s =>
    let after := s.tokens.length - position
    { s with tokens := s.tokens.take after ++ t :: s.tokens.drop after }

/-- Says whether a key can start at the next token. -/
def setAllowKey (b : Bool) : Scanner Unit :=
  modify fun s => { s with allowKey := b }

/-- Gives up the candidates that can be no keys any more, since a key stands on one line and is
not too long. -/
def dropStaleKeys : Scanner Unit := do
  let s ← get
  let stale (k : KeyCandidate) : Bool := k.line != s.line || k.index + 1024 < s.index
  require (!s.candidates.any fun c => stale c.2 && c.2.required)
  set { s with candidates := s.candidates.filter fun c => !stale c.2 }

def dropKey : Scanner Unit := do
  let s ← get
  require (!s.candidates.any fun c => c.1 == s.flow && c.2.required)
  set { s with candidates := s.candidates.filter fun c => c.1 != s.flow }

/-- Makes the next token a candidate, if a key can start here. -/
def saveKey : Scanner Unit := do
  let s ← get
  if s.allowKey then
    dropKey
    let candidate : KeyCandidate :=
      {
        position := s.tokens.length
        required := s.flow == 0 && s.indent == s.column + 1
        index := s.index
        line := s.line
        column := s.column
      }
    modify fun s => { s with candidates := (s.flow, candidate) :: s.candidates }

/-- Closes the block collections that are further right than a column, which is given one more
than it is. -/
def unwind (column : Nat) : Scanner Unit := do
  let rec go : Nat → Scanner Unit
    | 0 => pure ()
    | fuel + 1 => do
        let s ← get
        if column < s.indent then
          set { s with indent := s.outer.head?.getD 0, outer := s.outer.tail }
          emit .blockEnd
          go fuel
  let s ← get
  if s.flow == 0 then go (s.outer.length + 1)

/-- Opens a block collection at a column, unless one is open there. -/
def indentTo (column : Nat) : Scanner Bool := do
  let s ← get
  if s.indent < column + 1 then
    set { s with indent := column + 1, outer := s.indent :: s.outer }
    return true
  else return false

end Scanner
end JsxProvenance.Yaml
