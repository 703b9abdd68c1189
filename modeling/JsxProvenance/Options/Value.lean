import JsxProvenance.Decimal.Shortest
import JsxProvenance.Text.Quoted

/-!
Loosely typed values, as an options file holds them, and how messages show them.
-/

namespace JsxProvenance

/-- The most digits that a whole number is written with, or read with. -/
def longestNumber : Nat := 4300

/-- A value of an options file. A map keeps its entries in order and has no key twice. -/
inductive Value where
  | null
  | bool (b : Bool)
  | int (n : Int)
  | float (f : Float)
  | text (s : String)
  | list (items : List Value)
  | map (entries : List (Value × Value))
  deriving Repr, Inhabited

namespace Value

def typeWord : Value → String
  | null => "NoneType"
  | bool _ => "bool"
  | int _ => "int"
  | float _ => "float"
  | text _ => "str"
  | list _ => "list"
  | map _ => "dict"

mutual

/-- How a value is shown inside of others: texts stand in quotes. -/
def shown : Value → String
  | null => "None"
  | bool b => if b then "True" else "False"
  | int n => toString n
  | float f => Decimal.floatText f
  | text s => Quoted.text s
  | list items => Quoted.bracketed (shownList items)
  | map entries => "\x7b" ++ ", ".intercalate (shownEntries entries) ++ "\x7d"

def shownList : List Value → List String
  | [] => []
  | v :: rest => v.shown :: shownList rest

def shownEntries : List (Value × Value) → List String
  | [] => []
  | (k, v) :: rest => (k.shown ++ ": " ++ v.shown) :: shownEntries rest

end

mutual

/-- Whether a value can be shown: it holds no whole number that is too long to be written. -/
def isShowable : Value → Bool
  | int n => n.natAbs < Nat.pow 10 longestNumber
  | list items => areShowable items
  | map entries => entriesShowable entries
  | _ => true

def areShowable : List Value → Bool
  | [] => true
  | v :: rest => v.isShowable && areShowable rest

def entriesShowable : List (Value × Value) → Bool
  | [] => true
  | (k, v) :: rest => k.isShowable && v.isShowable && entriesShowable rest

end

/-- The text of a value. A text is its own. -/
def asText : Value → String
  | text s => s
  | v => v.shown

/-- Whether a value counts as nothing: zero, the empty text, an empty list or map, and so on. -/
def isNothing : Value → Bool
  | null => true
  | bool b => !b
  | int n => n == 0
  | float f => f == 0.0
  | text s => s.isEmpty
  | list items => items.isEmpty
  | map entries => entries.isEmpty

/-- The number that a key is, if it is one. Truth values count as one and zero. -/
def asNumber? : Value → Option Float
  | bool b => some (if b then 1.0 else 0.0)
  | int n => some (Float.ofInt n)
  | float f => some f
  | _ => none

/-- The whole number that a key is, if it is one. -/
def asInt? : Value → Option Int
  | bool b => some (if b then 1 else 0)
  | int n => some n
  | _ => none

/-- Whether two values are the same key. Numbers are the same key if they are equal, whatever
their type. -/
def sameKey : Value → Value → Bool
  | null, null => true
  | text a, text b => a == b
  | a, b =>
      match a.asInt?, b.asInt? with
      | some m, some n => m == n
      | _, _ =>
          match a.asNumber?, b.asNumber? with
          | some x, some y => x == y
          | _, _ => false

def isKey : Value → Bool
  | list _ => false
  | map _ => false
  | _ => true

end Value

/-- The entries of a map. -/
abbrev Entries := List (Value × Value)

namespace Entries

/-- Puts a value under a key. A key that is there keeps its place. -/
def put (key value : Value) : Entries → Entries
  | [] => [(key, value)]
  | (k, v) :: rest => if k.sameKey key then (k, value) :: rest else (k, v) :: put key value rest

/-- Puts all entries of a list in turn, so that the last value of a key counts. -/
def ofList (entries : List (Value × Value)) : Entries :=
  entries.foldl (fun all (k, v) => put k v all) []

/-- The value under a key that is a text. -/
def get? (name : String) : Entries → Option Value
  | [] => none
  | (k, v) :: rest => if k.sameKey (.text name) then some v else get? name rest

end Entries
end JsxProvenance
