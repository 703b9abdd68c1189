import JsxProvenance.Yaml.Scalar

/-!
The tokens of a text. Each step passes over blanks and comments, gives up the candidates for keys
that have become stale, closes the collections that are further right, and takes one token.
-/

namespace JsxProvenance.Yaml

open Scanner

/-- Passes over blanks, comments and line ends. A key can start on a new line. -/
def skipGap : Scanner Unit := do
  if (← get).index == 0 && (← peek 0) == '\uFEFF' then forward 1
  let _ ← collect (α := Unit) do
    skipSpaces
    if (← peek 0) == '#' then
      let _ ← takeWhile (!isBreak ·)
    if isBreak (← peek 0) then
      let _ ← lineBreak
      if (← get).flow == 0 then setAllowKey true
      return some []
    else return none

def directiveNumber : Scanner Nat := do
  let digits ← takeWhile Char.isDigit
  require (!digits.isEmpty)
  return digits.foldl (fun n c => n * 10 + (c.toNat - 48)) 0

/-- The handle of a tag, with the marks around it. -/
def tagHandle : Scanner String := do
  require ((← peek 0) == '!')
  forward 1
  let name ← takeWhile isWordChar
  if (← peek 0) == '!' then
    forward 1
    return String.ofList ('!' :: name ++ ['!'])
  else
    require name.isEmpty
    return "!"

/-- Whether a character can be part of a tag as it is. -/
def isTagChar (c : Char) : Bool :=
  c.isAlphanum || "-;/?:@&=+$,_.!~*'()[]".toList.contains c

def tagEscape : Scanner Nat := do
  require ((← peek 0) == '%')
  forward 1
  let digits := (← get).rest.take 2
  require (digits.length == 2)
  match hexValue? digits with
  | some n =>
      forward 2
      return n
  | none => failure

def tagText : Scanner String := do
  let text ← collect do
    let c ← peek 0
    if isTagChar c then
      forward 1
      return some [c]
    else if c == '%' then return some [Char.ofNat (← tagEscape)]
    else return none
  require (!text.isEmpty)
  return String.ofList text

/-- The rest of a directive that declares a tag handle. -/
def tagDirective : Scanner Directive := do
  skipSpaces
  let handle ← tagHandle
  require ((← peek 0) == ' ')
  skipSpaces
  let text ← tagText
  let c ← peek 0
  require (c == ' ' || isBreakOrEnd c)
  return .tag handle text

/-- The rest of a directive that states the version. -/
def versionDirective : Scanner Directive := do
  skipSpaces
  let major ← directiveNumber
  require ((← peek 0) == '.')
  forward 1
  let minor ← directiveNumber
  let c ← peek 0
  require (c == ' ' || isBreakOrEnd c)
  return .version major minor

/-- A directive. One that is not known is passed over. -/
def directive : Scanner Directive := do
  forward 1
  let name ← takeWhile isWordChar
  require (!name.isEmpty)
  let c ← peek 0
  require (c == ' ' || isBreakOrEnd c)
  let found ←
    if name == "YAML".toList then versionDirective
    else if name == "TAG".toList then tagDirective
    else
      let _ ← takeWhile (!isBreak ·)
      pure .other
  restOfLine
  return found

/-- The name after the mark of an alias or an anchor. -/
def anchorName : Scanner String := do
  forward 1
  let name ← takeWhile isWordChar
  require (!name.isEmpty)
  let c ← peek 0
  require (isGapOrEnd c || "?:,]\x7d%@\x60".toList.contains c)
  return String.ofList name

/-- A tag: verbatim in angle brackets, with a handle, or a single mark. -/
def tagToken : Scanner Token := do
  let c ← peek 1
  let token ←
    if c == '<' then
      forward 2
      let text ← tagText
      require ((← peek 0) == '>')
      forward 1
      pure (Token.tag none text)
    else if isGapOrEnd c then
      forward 1
      pure (Token.tag none "!")
    else
      let ahead := (← get).rest.tail.takeWhile fun c => !(c == ' ' || isBreak c)
      let handle ←
        if ahead.contains '!' then tagHandle
        else
          forward 1
          pure "!"
      pure (Token.tag (some handle) (← tagText))
  let c ← peek 0
  require (c == ' ' || isBreakOrEnd c)
  return token

/-- Ends the keys and the block collections, as the borders of documents do. -/
def endBlocks : Scanner Unit := do
  unwind 0
  dropKey
  setAllowKey false

/-- Takes a token that consists of a number of characters. -/
def mark (t : Token) (length : Nat) : Scanner Unit := do
  forward length
  emit t

def openFlow (t : Token) : Scanner Unit := do
  saveKey
  modify fun s => { s with flow := s.flow + 1 }
  setAllowKey true
  mark t 1

/-- Takes the end of a flow collection. One that was not opened is no YAML. -/
def closeFlow (t : Token) : Scanner Unit := do
  dropKey
  require ((← get).flow != 0)
  modify fun s => { s with flow := s.flow - 1 }
  setAllowKey false
  mark t 1

def flowSeparator : Scanner Unit := do
  setAllowKey true
  dropKey
  mark .flowEntry 1

/-- Opens a block collection at the next token, which must be able to start one. -/
def openBlock (t : Token) : Scanner Unit := do
  let s ← get
  if s.flow == 0 then
    require s.allowKey
    if ← indentTo s.column then emit t

def blockDash : Scanner Unit := do
  openBlock .blockSequenceStart
  setAllowKey true
  dropKey
  mark .blockEntry 1

def keyMark : Scanner Unit := do
  openBlock .blockMappingStart
  setAllowKey ((← get).flow == 0)
  dropKey
  mark .key 1

/-- Takes the colon of a value. The candidate of this flow level is a key then. -/
def valueMark : Scanner Unit := do
  let s ← get
  match s.candidates.find? fun c => c.1 == s.flow with
  | some (_, k) =>
      set { s with candidates := s.candidates.filter fun c => c.1 != s.flow }
      emitAt k.position .key
      if s.flow == 0 then
        if ← indentTo k.column then emitAt k.position .blockMappingStart
      setAllowKey false
  | none =>
      openBlock .blockMappingStart
      setAllowKey (s.flow == 0)
      dropKey
  mark .value 1

def keyToken (token : Scanner Token) : Scanner Unit := do
  saveKey
  setAllowKey false
  emit (← token)

/-- Takes a plain scalar, after which a key can start if it went over a line end. -/
def plainToken : Scanner Token := do
  return .scalar .plain (String.ofList (← plainScalar))

def quotedToken (quote : Char) : Scanner Token := do
  return .scalar .quoted (String.ofList (← quotedScalar quote))

def blockToken (folded : Bool) : Scanner Unit := do
  setAllowKey true
  dropKey
  emit (.scalar .block (String.ofList (← blockScalar folded)))

/-- Whether a plain scalar can start with a character in front of another. -/
def startsPlain (inFlow : Bool) (c after : Char) : Bool :=
  (!isGapOrEnd c && !"-?:,[]\x7b\x7d#&*!|>'\"%@\x60".toList.contains c)
    || (!isGapOrEnd after && (c == '-' || (!inFlow && (c == '?' || c == ':'))))

/-- Takes one token. The result says whether more can follow. -/
def oneToken : Scanner Bool := do
  skipGap
  dropStaleKeys
  let s ← get
  unwind (s.column + 1)
  let c ← peek 0
  let after ← peek 1
  let inFlow := s.flow != 0
  if c == '\x00' then
    endBlocks
    emit .streamEnd
    return false
  else if c == '%' && s.column == 0 then
    endBlocks
    emit (.directive (← directive))
  else if s.column == 0 && (← documentMark '-') then
    endBlocks
    mark .documentStart 3
  else if s.column == 0 && (← documentMark '.') then
    endBlocks
    mark .documentEnd 3
  else if c == '[' then openFlow .flowSequenceStart
  else if c == '\x7b' then openFlow .flowMappingStart
  else if c == ']' then closeFlow .flowSequenceEnd
  else if c == '\x7d' then closeFlow .flowMappingEnd
  else if c == ',' then flowSeparator
  else if c == '-' && isGapOrEnd after then blockDash
  else if c == '?' && (inFlow || isGapOrEnd after) then keyMark
  else if c == ':' && (inFlow || isGapOrEnd after) then valueMark
  else if c == '*' then keyToken (do return .reference (← anchorName))
  else if c == '&' then keyToken (do return .anchor (← anchorName))
  else if c == '!' then keyToken tagToken
  else if c == '|' && !inFlow then blockToken false
  else if c == '>' && !inFlow then blockToken true
  else if c == '\'' || c == '"' then keyToken (quotedToken c)
  else
    require (startsPlain inFlow c after)
    keyToken plainToken
  return true

/-- Whether a character may stand in a text at all. -/
def isAllowed (c : Char) : Bool :=
  let n := c.toNat
  n == 0x09 || n == 0x0a || n == 0x0d || (0x20 ≤ n && n ≤ 0x7e) || n == 0x85
    || (0xa0 ≤ n && n ≤ 0xfffd) || 0x10000 ≤ n

def allTokens : Nat → Scanner Unit
  | 0 => failure
  | fuel + 1 => do if ← oneToken then allTokens fuel

/-- The tokens of a text, none if it is no YAML. -/
def tokens? (text : List Char) : Option (List Token) :=
  if text.all isAllowed then
    ((allTokens (2 * text.length + 2)).run { rest := text }).map fun r => r.2.tokens.reverse
  else none

end JsxProvenance.Yaml
