import JsxProvenance.Text.Utf8

/-!
A source text as a grammar reads it: characters with the byte offsets at which they start, and
the lexemes whose extent is known without any grammar.
-/

namespace JsxProvenance.Tsx

/-- A source text. There is one offset more than characters: that of the end. -/
structure Text where
  chars : Array Char
  offsets : Array Nat
  deriving Inhabited

namespace Text

/-- The offsets at which pieces of the given lengths start, from a first one, and the end. -/
def startsFrom : Nat → List Nat → List Nat
  | start, [] => [start]
  | start, length :: rest => start :: startsFrom (start + length) rest

def ofBytes (bytes : List UInt8) : Text :=
  let pieces := Utf8.pieces 0 bytes
  ⟨(pieces.map (·.1)).toArray, (startsFrom 0 (pieces.map (·.2))).toArray⟩

def size (t : Text) : Nat :=
  t.chars.size

/-- The character at an index, NUL after the end. -/
def charAt (t : Text) (i : Nat) : Char :=
  t.chars.getD i '\x00'

def offset (t : Text) (i : Nat) : Nat :=
  t.offsets.getD i (t.offsets.back?.getD 0)

def slice (t : Text) (start stop : Nat) : List Char :=
  (t.chars.extract start stop).toList

def matchesAt (t : Text) (i : Nat) : List Char → Bool
  | [] => true
  | c :: rest => t.charAt i == c && t.matchesAt (i + 1) rest

end Text

def isSeparator (c : Char) : Bool :=
  let n := c.toNat
  (0x09 ≤ n && n ≤ 0x0d) || n == 0x20 || n == 0xa0 || n == 0x1680
    || (0x2000 ≤ n && n ≤ 0x200b) || n == 0x2028 || n == 0x2029 || n == 0x202f || n == 0x205f
    || n == 0x2060 || n == 0x3000 || n == 0xfeff

def isLineEnd (c : Char) : Bool :=
  c == '\n' || c == '\r' || c == '\u2028' || c == '\u2029'

/-- The characters in ASCII that are neither separators nor part of a name. -/
def punctuation : List Char :=
  ":;\x60\"'@#.,|^&<=>+-*/\\%?!~()[]\x7b\x7d".toList

/-- The characters that can start a name. Outside ASCII all but separators can. -/
def isNameStart (c : Char) : Bool :=
  0x20 < c.toNat && !c.isDigit && !isSeparator c && !(punctuation.contains c)

def isNamePart (c : Char) : Bool :=
  isNameStart c || c.isDigit

namespace Text

/-- The first index from which a condition fails. The first argument bounds the search. -/
def skipWhile (t : Text) (p : Char → Bool) : Nat → Nat → Nat
  | 0, i => i
  | fuel + 1, i => if i < t.size && p (t.charAt i) then t.skipWhile p fuel (i + 1) else i

/-- The first index at or after the given one from which a condition fails. -/
def endOf (t : Text) (p : Char → Bool) (i : Nat) : Nat :=
  t.skipWhile p (t.size - i) i

/-- What is being passed over between two tokens. -/
inductive Gap where
  | blank
  | lineComment
  | blockComment

/-- Passes over blanks and comments. Gives the index after them and whether a line ended. -/
def skipGap (t : Text) : Gap → Nat → Nat → Bool → Nat × Bool
  | _, 0, i, newline => (i, newline)
  | .blank, fuel + 1, i, newline =>
      if isSeparator (t.charAt i) then t.skipGap .blank fuel (i + 1) (newline || t.charAt i == '\n')
      else if t.charAt i == '/' && t.charAt (i + 1) == '/' then
        t.skipGap .lineComment fuel (i + 2) newline
      else if t.charAt i == '/' && t.charAt (i + 1) == '*' then
        t.skipGap .blockComment fuel (i + 2) newline
      else (i, newline)
  | .lineComment, fuel + 1, i, newline =>
      if isLineEnd (t.charAt i) then t.skipGap .blank fuel (i + 1) (newline || t.charAt i == '\n')
      else t.skipGap .lineComment fuel (i + 1) newline
  | .blockComment, fuel + 1, i, newline =>
      if t.charAt i == '*' && t.charAt (i + 1) == '/' then t.skipGap .blank fuel (i + 2) newline
      else t.skipGap .blockComment fuel (i + 1) (newline || t.charAt i == '\n')

/-- The index of the next token, and whether a line ends before it. -/
def gap (t : Text) (i : Nat) : Nat × Bool :=
  t.skipGap .blank (t.size - i) i false

/-- The end of a name in which code points can be escaped. -/
def skipName (t : Text) : Nat → Nat → Nat
  | 0, i => i
  | fuel + 1, i =>
      if isNamePart (t.charAt i) then t.skipName fuel (i + 1)
      else if t.charAt i == '\\' && t.charAt (i + 1) == 'u' then
        if t.charAt (i + 2) == '\x7b' then t.skipName fuel (t.endOf (· != '\x7d') (i + 3) + 1)
        else t.skipName fuel (i + 2)
      else i

/-- The end of the name at an index, the index itself if there is none. -/
def nameEnd (t : Text) (i : Nat) : Nat :=
  if isNameStart (t.charAt i) || (t.charAt i == '\\' && t.charAt (i + 1) == 'u') then
    t.skipName (t.size - i) i
  else i

/-- The name at an index, empty if there is none. -/
def nameAt (t : Text) (i : Nat) : String :=
  String.ofList (t.slice i (t.nameEnd i))

/-- The end of an exponent, if one stands at the index. -/
def exponentEnd (t : Text) (i : Nat) : Nat :=
  if t.charAt i == 'e' || t.charAt i == 'E' then
    let digits := if t.charAt (i + 1) == '+' || t.charAt (i + 1) == '-' then i + 2 else i + 1
    if (t.charAt digits).isDigit then t.endOf (fun c => c.isDigit || c == '_') digits else i
  else i

def numberEnd (t : Text) (i : Nat) : Nat :=
  let digits := t.endOf fun c => c.isDigit || c == '_'
  if t.charAt i == '0' && "xXoObB".toList.contains (t.charAt (i + 1)) then
    t.endOf (fun c => c.isAlphanum || c == '_') (i + 2)
  else
    let whole := digits i
    let part := if t.charAt whole == '.' then digits (whole + 1) else whole
    let full := t.exponentEnd part
    if t.charAt full == 'n' then full + 1 else full

/-- The end of a string. The index is inside of it. -/
def skipString (t : Text) (quote : Char) : Nat → Nat → Option Nat
  | 0, _ => none
  | fuel + 1, i =>
      if t.size ≤ i then none
      else if t.charAt i == quote then some (i + 1)
      else if t.charAt i == '\\' then t.skipString quote fuel (i + 2)
      else if t.charAt i == '\n' then none
      else t.skipString quote fuel (i + 1)

def stringEnd (t : Text) (i : Nat) : Option Nat :=
  t.skipString (t.charAt i) (t.size - i) (i + 1)

/-- The end of the body of a regular expression. The index is inside of it. -/
def skipRegex (t : Text) : Bool → Nat → Nat → Option Nat
  | _, 0, _ => none
  | bracketed, fuel + 1, i =>
      if t.size ≤ i || t.charAt i == '\n' then none
      else if t.charAt i == '\\' then t.skipRegex bracketed fuel (i + 2)
      else if t.charAt i == '[' then t.skipRegex true fuel (i + 1)
      else if t.charAt i == ']' then t.skipRegex false fuel (i + 1)
      else if t.charAt i == '/' && !bracketed then some (i + 1)
      else t.skipRegex bracketed fuel (i + 1)

/-- The end of the regular expression at an index, with its flags. -/
def regexEnd (t : Text) (i : Nat) : Option Nat :=
  (t.skipRegex false (t.size - i) (i + 1)).map (t.endOf isNamePart)

/-- The end of a bracketed group whose closing characters are still owed, innermost first. A back
quote among them means that template text is being read. -/
def skipGroup (t : Text) : Nat → List Char → Nat → Option Nat
  | 0, _, _ => none
  | _, [], i => some i
  | fuel + 1, '\x60' :: owed, i =>
      if t.size ≤ i then none
      else if t.charAt i == '\x60' then t.skipGroup fuel owed (i + 1)
      else if t.charAt i == '\\' then t.skipGroup fuel ('\x60' :: owed) (i + 2)
      else if t.charAt i == '$' && t.charAt (i + 1) == '\x7b' then
        t.skipGroup fuel ('\x7d' :: '\x60' :: owed) (i + 2)
      else t.skipGroup fuel ('\x60' :: owed) (i + 1)
  | fuel + 1, closing :: owed, i =>
      let start := (t.gap i).1
      if t.size ≤ start then none
      else
        match t.charAt start with
        | '(' => t.skipGroup fuel (')' :: closing :: owed) (start + 1)
        | '[' => t.skipGroup fuel (']' :: closing :: owed) (start + 1)
        | '\x7b' => t.skipGroup fuel ('\x7d' :: closing :: owed) (start + 1)
        | '\x60' => t.skipGroup fuel ('\x60' :: closing :: owed) (start + 1)
        | '"' => (t.stringEnd start).bind (t.skipGroup fuel (closing :: owed))
        | '\'' => (t.stringEnd start).bind (t.skipGroup fuel (closing :: owed))
        | c =>
            if c == closing then t.skipGroup fuel owed (start + 1)
            else if ")]\x7d".toList.contains c then none
            else t.skipGroup fuel (closing :: owed) (start + 1)

def closingOf : Char → Char
  | '(' => ')'
  | '[' => ']'
  | '\x7b' => '\x7d'
  | c => c

/-- The end of the bracketed group or template at an index. -/
def groupEnd (t : Text) (i : Nat) : Option Nat :=
  t.skipGroup (2 * (t.size - i) + 1) [closingOf (t.charAt i)] (i + 1)

end Text

/-- The operators and brackets, longer ones before those they start with. -/
def operators : List (List Char) :=
  [
    ">>>=", "===", "!==", "**=", "<<=", ">>=", ">>>", "&&=", "||=", "??=", "...", "=>", "==",
    "!=", "<=", ">=", "&&", "||", "??", "?.", "++", "--", "+=", "-=", "*=", "/=", "%=", "&=",
    "|=", "^=", "<<", ">>", "**", "\x7b", "\x7d", "(", ")", "[", "]", ";", ",", "<", ">", "+",
    "-", "*", "/", "%", "&", "|", "^", "!", "~", "?", ":", "=", ".", "@", "#"
  ].map String.toList

/-- The operator at an index, empty if there is none. A question mark before a decimal fraction
stands alone. -/
def Text.operatorAt (t : Text) (i : Nat) : String :=
  match operators.find? (t.matchesAt i) with
  | some ['?', '.'] => if (t.charAt (i + 2)).isDigit then "?" else "?."
  | some op => String.ofList op
  | none => ""

end JsxProvenance.Tsx
