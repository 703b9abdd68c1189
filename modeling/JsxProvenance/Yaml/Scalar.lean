import JsxProvenance.Yaml.Scanner

/-!
The texts of scalars. A line end inside of a scalar is folded to a space, and each further one
stands for itself; only literal blocks keep every line end.
-/

namespace JsxProvenance.Yaml

open Scanner

/-- What a fold leaves of a line end and of those that follow it. -/
def foldedBreaks (first : List Char) (others : List (List Char)) : List Char :=
  if first != ['\n'] then first ++ others.flatten
  else if others.isEmpty then [' ']
  else others.flatten

/-- The characters that structure flow collections, and so end a plain scalar in them. -/
def flowPunctuation : List Char :=
  ",?[]\x7b\x7d".toList

/-- The characters of a plain scalar up to a gap, or to a colon that ends a key. -/
def plainRun (inFlow : Bool) : List Char → List Char
  | [] => []
  | c :: rest =>
      let after := rest.head?.getD '\x00'
      let endsKey :=
        c == ':' && (isGapOrEnd after || (inFlow && ",[]\x7b\x7d".toList.contains after))
      if isGapOrEnd c || endsKey || (inFlow && flowPunctuation.contains c) then []
      else c :: plainRun inFlow rest

/-- The line ends at the front, and the blanks between them. None if a document ends there. -/
def plainBreaks : Scanner (Option (List (List Char))) := do
  let found ← collect do
    let c ← peek 0
    if c == ' ' then
      forward 1
      return some []
    else if isBreak c then
      let line ← lineBreak
      if ← documentBorder then return some [none] else return some [some line]
    else return none
  return found.foldr (fun line all => match line, all with
    | some l, some ls => some (l :: ls)
    | _, _ => none) (some [])

/-- The gap between two runs of a plain scalar. -/
def plainGap : Scanner (List Char) := do
  let blanks ← takeWhile (· == ' ')
  if isBreak (← peek 0) then
    let first ← lineBreak
    setAllowKey true
    if ← documentBorder then return []
    else
      match ← plainBreaks with
      | some others => return foldedBreaks first others
      | none => return []
  else return blanks

def plainScalar : Scanner (List Char) := do
  let rec go : Nat → List Char → Scanner (List Char)
    | 0, _ => pure []
    | fuel + 1, gap => do
        let s ← get
        let run := if s.rest.head? == some '#' then [] else plainRun (s.flow != 0) s.rest
        if run.isEmpty then return []
        else
          setAllowKey false
          forward run.length
          let nextGap ← plainGap
          let t ← get
          let outdented := t.flow == 0 && t.column < t.indent
          if nextGap.isEmpty || t.rest.head? == some '#' || outdented then return gap ++ run
          else return gap ++ run ++ (← go fuel nextGap)
  go ((← get).rest.length + 1) []

/-- The character that a letter stands for after a backslash. -/
def escaped? : Char → Option Char
  | '0' => some '\x00'
  | 'a' => some '\x07'
  | 'b' => some '\x08'
  | 't' => some '\t'
  | '\t' => some '\t'
  | 'n' => some '\n'
  | 'v' => some '\x0b'
  | 'f' => some '\x0c'
  | 'r' => some '\r'
  | 'e' => some '\x1b'
  | ' ' => some ' '
  | '"' => some '"'
  | '\\' => some '\\'
  | '/' => some '/'
  | 'N' => some '\u0085'
  | '_' => some '\u00a0'
  | 'L' => some '\u2028'
  | 'P' => some '\u2029'
  | _ => none

/-- The number of hexadecimal digits after a letter that announces a code point. -/
def escapeLength? : Char → Option Nat
  | 'x' => some 2
  | 'u' => some 4
  | 'U' => some 8
  | _ => none

def hexDigit? (c : Char) : Option Nat :=
  if c.isDigit then some (c.toNat - 48)
  else if 'a' ≤ c ∧ c ≤ 'f' then some (c.toNat - 87)
  else if 'A' ≤ c ∧ c ≤ 'F' then some (c.toNat - 55)
  else none

/-- The value of hexadecimal digits, none if something else is among them. -/
def hexValue? (digits : List Char) : Option Nat :=
  digits.foldlM (fun n c => (hexDigit? c).map (n * 16 + ·)) 0

/-- The line ends and blanks inside of a quoted scalar. No document can end there. -/
def quotedBreaks : Scanner (List (List Char)) :=
  collect do
    require (!(← documentBorder))
    let _ ← takeWhile fun c => c == ' ' || c == '\t'
    if isBreak (← peek 0) then return some [← lineBreak] else return none

def escapeSequence : Scanner (List Char) := do
  let c ← peek 0
  match escaped? c, escapeLength? c with
  | some r, _ =>
      forward 1
      return [r]
  | none, some count =>
      forward 1
      let digits := (← get).rest.take count
      require (digits.length == count)
      match hexValue? digits with
      | some n =>
          forward count
          return [Char.ofNat n]
      | none => failure
  | none, none =>
      require (isBreak c)
      let _ ← lineBreak
      return (← quotedBreaks).flatten

def quotedGap : Scanner (List Char) := do
  let blanks ← takeWhile fun c => c == ' ' || c == '\t'
  let c ← peek 0
  require (c != '\x00')
  if isBreak c then
    let first ← lineBreak
    return foldedBreaks first (← quotedBreaks)
  else return blanks

/-- A scalar in quotes. Single quotes are written twice inside of single quotes, and backslashes
escape inside of double quotes. -/
def quotedScalar (quote : Char) : Scanner (List Char) := do
  forward 1
  let text ← collect do
    let c ← peek 0
    if c == quote then
      if quote == '\'' && (← peek 1) == quote then
        forward 2
        return some [quote]
      else return none
    else if c == '\\' && quote == '"' then
      forward 1
      return some (← escapeSequence)
    else if isGapOrEnd c then return some (← quotedGap)
    else
      forward 1
      return some [c]
  require ((← peek 0) == quote)
  forward 1
  return text

/-- What the head of a block scalar says: which line ends are kept at its end, and its
indentation. -/
structure BlockHead where
  keep : Option Bool := none
  indentation : Option Nat := none

/-- The sign in the head of a block scalar. -/
def chompingMark : Scanner (Option Bool) := do
  let c ← peek 0
  if c == '+' || c == '-' then
    forward 1
    return some (c == '+')
  else return none

/-- The digit in the head of a block scalar. -/
def indentationMark : Scanner (Option Nat) := do
  let c ← peek 0
  if c.isDigit then
    require (c != '0')
    forward 1
    return some (c.toNat - 48)
  else return none

/-- The head of a block scalar: a sign and a digit in any order. -/
def blockHead : Scanner BlockHead := do
  let first ← chompingMark
  let indentation ← indentationMark
  let second ← if first.isNone && indentation.isSome then chompingMark else pure none
  let c ← peek 0
  require (c == ' ' || isBreakOrEnd c)
  return ⟨first.or second, indentation⟩

/-- The rest of a line that holds nothing but a comment. -/
def restOfLine : Scanner Unit := do
  skipSpaces
  if (← peek 0) == '#' then
    let _ ← takeWhile (!isBreak ·)
  require (isBreakOrEnd (← peek 0))
  let _ ← lineBreak

/-- The empty lines at the front, and the greatest column reached in them. -/
def blankLines : Scanner (List (List Char) × Nat) := do
  let found ← collect do
    let c ← peek 0
    if c == ' ' then
      forward 1
      return some [((none : Option (List Char)), (← get).column)]
    else if isBreak c then return some [(some (← lineBreak), 0)]
    else return none
  return (found.filterMap (·.1), (found.map (·.2)).foldl max 0)

def skipToColumn (column : Nat) : Scanner Unit := do
  let s ← get
  forward ((s.rest.take (column - s.column)).takeWhile (· == ' ')).length

/-- The empty lines in front of a line of a block scalar. -/
def blockBreaks (column : Nat) : Scanner (List (List Char)) := do
  skipToColumn column
  collect do
    if isBreak (← peek 0) then
      let line ← lineBreak
      skipToColumn column
      return some [line]
    else return none

/-- The lines of a block scalar, with the empty lines in front of the first. -/
def blockLines (folded : Bool) (head : BlockHead) (column : Nat)
    : Nat → List (List Char) → List Char → Scanner (List Char)
  | 0, _, _ => pure []
  | fuel + 1, breaks, lastBreak => do
      let s ← get
      if s.column != column || s.rest.isEmpty then
        return (if head.keep == some false then [] else lastBreak)
          ++ (if head.keep == some true then breaks.flatten else [])
      else
        let startsText := !(s.rest.head? == some ' ' || s.rest.head? == some '\t')
        let line ← takeWhile (!isBreak ·)
        let ending ← lineBreak
        let following ← blockBreaks column
        let t ← get
        let goesOn := t.column == column && !t.rest.isEmpty
        let folds :=
          folded && ending == ['\n'] && startsText
            && !(t.rest.head? == some ' ' || t.rest.head? == some '\t')
        let joint :=
          if !goesOn then []
          else if !folds then ending
          else if following.isEmpty then [' ']
          else []
        let others ← blockLines folded head column fuel following ending
        return breaks.flatten ++ line ++ joint ++ others

def blockScalar (folded : Bool) : Scanner (List Char) := do
  forward 1
  let head ← blockHead
  restOfLine
  let s ← get
  let least := max s.indent 1
  match head.indentation with
  | some n =>
      let column := least + n - 1
      let breaks ← blockBreaks column
      blockLines folded head column (s.rest.length + 1) breaks []
  | none =>
      let (breaks, deepest) ← blankLines
      blockLines folded head (max least deepest) (s.rest.length + 1) breaks []

end JsxProvenance.Yaml
