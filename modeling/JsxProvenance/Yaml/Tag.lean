/-!
Tags of YAML 1.1, and the tag that a plain scalar has by its form.
-/

namespace JsxProvenance.Yaml

/-- What a node is. -/
inductive Tag where
  | null
  | bool
  | int
  | float
  | text
  | sequence
  | mapping
  /-- The key under which other mappings are merged in. -/
  | merge
  /-- The key that stands for the value itself. -/
  | default
  | unknown (name : String)
  deriving DecidableEq, Repr, Inhabited

/-- What the names of the tags of this version start with. -/
def tagNamespace : String := "tag:yaml.org,2002:"

def Tag.ofName (name : String) : Tag :=
  if name == tagNamespace ++ "null" then null
  else if name == tagNamespace ++ "bool" then bool
  else if name == tagNamespace ++ "int" then int
  else if name == tagNamespace ++ "float" then float
  else if name == tagNamespace ++ "str" then text
  else if name == tagNamespace ++ "seq" then sequence
  else if name == tagNamespace ++ "map" then mapping
  else if name == tagNamespace ++ "merge" then merge
  else if name == tagNamespace ++ "value" then default
  else unknown name

/-- The words for truth values, each in small letters, capitalised and in capitals. -/
def truthWords : List String :=
  [
    "yes", "Yes", "YES", "no", "No", "NO", "true", "True", "TRUE", "false", "False", "FALSE",
    "on", "On", "ON", "off", "Off", "OFF"
  ]

def nullWords : List String :=
  ["", "~", "null", "Null", "NULL"]

def unsigned : List Char → List Char
  | '+' :: rest => rest
  | '-' :: rest => rest
  | text => text

/-- Whether a text is not empty and consists of given characters and underscores. -/
def allDigits (p : Char → Bool) (text : List Char) : Bool :=
  !text.isEmpty && text.all fun c => p c || c == '_'

/-- Whether a text consists of digits and underscores and starts with a digit. -/
def isDigits (text : List Char) : Bool :=
  (text.head?.any Char.isDigit) && allDigits Char.isDigit text

def isOctal (c : Char) : Bool :=
  '0' ≤ c && c ≤ '7'

def isHex (c : Char) : Bool :=
  c.isDigit || ('a' ≤ c && c ≤ 'f') || ('A' ≤ c && c ≤ 'F')

def colonParts : List Char → List (List Char)
  | [] => [[]]
  | ':' :: rest => [] :: colonParts rest
  | c :: rest =>
      match colonParts rest with
      | [] => [[c]]
      | part :: parts => (c :: part) :: parts

/-- Whether a text is a digit of a number to the base sixty: one or two digits, below sixty. -/
def isSixtieth : List Char → Bool
  | [a] => a.isDigit
  | [a, b] => '0' ≤ a && a ≤ '5' && b.isDigit
  | _ => false

/-- Whether a text is a whole number: binary, octal, hexadecimal, decimal, or to the base sixty. -/
def isInt (text : List Char) : Bool :=
  match unsigned text with
  | ['0'] => true
  | '0' :: 'b' :: rest => allDigits (fun c => c == '0' || c == '1') rest
  | '0' :: 'x' :: rest => allDigits isHex rest
  | '0' :: rest => allDigits isOctal rest
  | rest =>
      match colonParts rest with
      | [] => false
      | whole :: sixtieths => isDigits whole && sixtieths.all isSixtieth

/-- Whether a text is empty or an exponent, which has a sign. -/
def isExponent : List Char → Bool
  | [] => true
  | e :: sign :: digits =>
      (e == 'e' || e == 'E') && (sign == '+' || sign == '-') && !digits.isEmpty
        && digits.all Char.isDigit
  | _ => false

/-- Whether a text is a fraction after the point, with an exponent perhaps. -/
def isFraction (text : List Char) : Bool :=
  isExponent (text.dropWhile fun c => c.isDigit || c == '_')

/-- Whether a text is a number with a point: decimal, to the base sixty, infinite, or none. -/
def isFloat (text : List Char) : Bool :=
  let rest := unsigned text
  let whole := rest.takeWhile (· != '.')
  let fraction := (rest.dropWhile (· != '.')).drop 1
  let pointed := rest.contains '.'
  let decimal := pointed && isDigits whole && isFraction fraction
  let bare :=
    text.head? == some '.' && (text.tail.head?.any Char.isDigit) && isFraction text.tail
  let sexagesimal :=
    pointed
      && (match colonParts whole with
        | first :: second :: others => isDigits first && (second :: others).all isSixtieth
        | _ => false)
      && fraction.all fun c => c.isDigit || c == '_'
  decimal || bare || sexagesimal || [".inf", ".Inf", ".INF"].contains (String.ofList rest)
    || [".nan", ".NaN", ".NAN"].contains (String.ofList text)

def Tag.ofPlain (text : String) : Tag :=
  if truthWords.contains text then bool
  else if isFloat text.toList then float
  else if isInt text.toList then int
  else if text == "<<" then merge
  else if nullWords.contains text then null
  else if text == "=" then default
  else .text

end JsxProvenance.Yaml
