import JsxProvenance.Options.Value
import JsxProvenance.Yaml.Node

/-!
The value of a document. Only the standard tags have values.
-/

namespace JsxProvenance.Yaml

/-- A scalar whose tag asks for a form that its text does not have. -/
inductive LiteralFault where
  | noTruth (text : String)
  | noInt (base : Nat) (text : String)
  | noFloat (text : String)
  /-- A decimal number with too many digits to be read. -/
  | tooLong (digits : Nat)
  deriving DecidableEq, Repr, Inhabited

def LiteralFault.message : LiteralFault → String
  | noTruth text => Quoted.text text
  | noInt base text =>
      "invalid literal for int() with base " ++ toString base ++ ": " ++ Quoted.text text
  | noFloat text => "could not convert string to float: " ++ Quoted.text text
  | tooLong digits =>
      "Exceeds the limit (" ++ toString longestNumber
        ++ " digits) for integer string conversion: value has " ++ toString digits
        ++ " digits; use sys.set_int_max_str_digits() to increase the limit"

/-- Why a text has no value. -/
inductive Fault where
  | malformed
  | literal (fault : LiteralFault)
  deriving DecidableEq, Repr, Inhabited

def readBool (text : String) : Except Fault Bool :=
  let word := text.map Char.toLower
  if ["yes", "true", "on"].contains word then .ok true
  else if ["no", "false", "off"].contains word then .ok false
  else .error (.literal (.noTruth word))

def readDigits (base : Nat) (text : List Char) : Except Fault Nat :=
  let digits := (text.takeWhile Char.isDigit).length
  if base = 10 ∧ longestNumber < digits then .error (.literal (.tooLong digits))
  else
    match text.mapM hexDigit? with
    | some digits =>
        if !digits.isEmpty && digits.all (· < base) then
          .ok (digits.foldl (fun n d => n * base + d) 0)
        else .error (.literal (.noInt base (String.ofList text)))
    | none => .error (.literal (.noInt base (String.ofList text)))

/-- The value of a number to the base sixty, from its digits. -/
def sexagesimal (parts : List Nat) : Nat :=
  parts.foldl (fun n d => n * 60 + d) 0

def readInt (text : String) : Except Fault Int := do
  let plain := text.toList.filter (· != '_')
  let value ← match unsigned plain with
    | ['0'] => pure 0
    | '0' :: 'b' :: rest => readDigits 2 rest
    | '0' :: 'x' :: rest => readDigits 16 rest
    | '0' :: rest => readDigits 8 ('0' :: rest)
    | rest => return signed plain (sexagesimal (← (colonParts rest).mapM (readDigits 10)))
  return signed plain value
where
  /-- The value with the sign that the text starts with. -/
  signed (text : List Char) (n : Nat) : Int :=
    if text.head? == some '-' then -n else n

/-- The float of a decimal: digits with a point among them, and an exponent perhaps. -/
def readDecimal (text : List Char) : Except Fault Float :=
  let fault : Except Fault Float := .error (.literal (.noFloat (String.ofList text)))
  let whole := text.takeWhile Char.isDigit
  let afterWhole := text.drop whole.length
  let pointed := afterWhole.head? == some '.'
  let fraction := if pointed then afterWhole.tail.takeWhile Char.isDigit else []
  let afterFraction := if pointed then afterWhole.tail.drop fraction.length else afterWhole
  let mantissa := (whole ++ fraction).foldl (fun n c => n * 10 + (c.toNat - 48)) 0
  let write (exponent : Int) : Float :=
    let place := exponent - fraction.length
    Float.ofScientific mantissa (place < 0) place.natAbs
  if whole.isEmpty && fraction.isEmpty then fault
  else
    match afterFraction with
    | [] => .ok (write 0)
    | 'e' :: rest =>
        let digits := unsigned rest
        if digits.isEmpty || !digits.all Char.isDigit then fault
        else
          let n : Nat := digits.foldl (fun n c => n * 10 + (c.toNat - 48)) 0
          .ok (write (if rest.head? == some '-' then -n else n))
    | _ => fault

def readFloat (text : String) : Except Fault Float := do
  let plain := (text.toList.filter (· != '_')).map Char.toLower
  let sign : Float := if plain.head? == some '-' then -1.0 else 1.0
  let rest := unsigned plain
  if rest == ".inf".toList then return sign * (1.0 / 0.0)
  else if rest == ".nan".toList then return 0.0 / 0.0
  else if rest.contains ':' then
    let parts ← (colonParts rest).mapM readDecimal
    let step (sum : Float × Float) (digit : Float) : Float × Float :=
      (sum.1 + digit * sum.2, sum.2 * 60.0)
    return sign * (parts.reverse.foldl step (0.0, 1.0)).1
  else return sign * (← readDecimal rest)

def readScalar (tag : Tag) (text : String) : Except Fault Value :=
  match tag with
  | .null => .ok .null
  | .bool => Value.bool <$> readBool text
  | .int => Value.int <$> readInt text
  | .float => Value.float <$> readFloat text
  | .text => .ok (.text text)
  | _ => .error .malformed

mutual

/-- The entries of a mapping with those of the mappings that it merges in. They come first, so
that the entries of the mapping itself count, and the first of several merged mappings counts
before the later ones. -/
def Node.mergedEntries : Node → Except Fault (List (Node × Node))
  | .mapping _ entries => do
      let merged ← mergedIn entries
      return merged ++ entries.filterMap fun
        | (.scalar .merge _, _) => none
        | (.scalar .default text, value) => some (.scalar .text text, value)
        | entry => some entry
  | _ => .error .malformed

def mergedIn : List (Node × Node) → Except Fault (List (Node × Node))
  | [] => .ok []
  | (.scalar .merge _, .sequence _ items) :: rest => do
      let lists ← mergedLists items
      return lists.reverse.flatten ++ (← mergedIn rest)
  | (.scalar .merge _, value) :: rest => do
      return (← value.mergedEntries) ++ (← mergedIn rest)
  | _ :: rest => mergedIn rest

def mergedLists : List Node → Except Fault (List (List (Node × Node)))
  | [] => .ok []
  | n :: rest => do return (← n.mergedEntries) :: (← mergedLists rest)

end

/-- The value of a node that is nested no deeper than a bound. Merging can repeat entries but nests
them no deeper. -/
def valueTo : Nat → Node → Except Fault Value
  | 0, _ => .error .malformed
  | _ + 1, .scalar tag text => readScalar tag text
  | depth + 1, .sequence tag items =>
      if tag == .sequence then return .list (← items.mapM (valueTo depth))
      else .error .malformed
  | depth + 1, .mapping tag entries =>
      if tag == .mapping then do
        let all ← (Node.mapping tag entries).mergedEntries
        let pairs ← all.mapM fun (k, v) => do
          let key ← valueTo depth k
          if key.isKey then return (key, ← valueTo depth v) else .error .malformed
        return .map (Entries.ofList pairs)
      else .error .malformed

mutual

def Node.depth : Node → Nat
  | .scalar _ _ => 1
  | .sequence _ items => 1 + depthOfList items
  | .mapping _ entries => 1 + depthOfEntries entries

/-- How deep the items of a sequence are nested. -/
def depthOfList : List Node → Nat
  | [] => 0
  | n :: rest => max n.depth (depthOfList rest)

/-- How deep the entries of a mapping are nested. -/
def depthOfEntries : List (Node × Node) → Nat
  | [] => 0
  | (k, v) :: rest => max (max k.depth v.depth) (depthOfEntries rest)

end

/-- The value of a text. An empty text has none, which counts as nothing. -/
def read (text : List Char) : Except Fault Value :=
  match document? text with
  | none => .error .malformed
  | some none => .ok .null
  | some (some n) => valueTo n.depth n

end JsxProvenance.Yaml
