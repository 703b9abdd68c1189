import JsxProvenance.Log
import JsxProvenance.Options.Value
import JsxProvenance.Settings
import JsxProvenance.Text.Sorted

/-!
The settings that options stand for. A switch is on only if its value is the truth value itself.
Options of other names are reported and have no effect.
-/

namespace JsxProvenance

/-- Why options stand for no settings. -/
inductive OptionsFault where
  | ignoredIsNoList (found : Value)
  | unknownPolicy (found : Value)
  /-- A value that is asked for its text holds a whole number that is too long to be written. -/
  | numberTooLong
  deriving Repr, Inhabited

def OptionsFault.message : OptionsFault → String
  | ignoredIsNoList found => "ignoredComponents must be a list, got " ++ found.typeWord
  | unknownPolicy found => "unknown traversal policy " ++ found.shown
  | numberTooLong =>
      "Exceeds the limit (" ++ toString longestNumber
        ++ " digits) for integer string conversion; use sys.set_int_max_str_digits() to increase"
        ++ " the limit"

namespace Entries

/-- The names of the options that have an effect. -/
def knownNames : List String :=
  [
    "native", "annotate-fragments", "ignoredComponents", "ignored-components", "experimental",
    "policy"
  ]

/-- Whether a key is the name of an option. -/
def isKnown : Value → Bool
  | .text name => name ∈ knownNames
  | _ => false

/-- The keys that are no options. -/
def unknownKeys (options : Entries) : List Value :=
  (options.filter fun (key, _) => !isKnown key).map (·.1)

/-- The keys that are no options, as texts in order. -/
def unknownNames (options : Entries) : List String :=
  sortedTexts (options.unknownKeys.map Value.asText)

/-- Asks for the texts of values. -/
def checkShowable (values : List Value) : Except OptionsFault Unit :=
  if Value.areShowable values then .ok () else .error .numberTooLong

/-- The log of reading the options: one warning for all keys that are no options, if they can be
shown. -/
def log (options : Entries) : List Log.Line :=
  if options.unknownKeys.isEmpty || !Value.areShowable options.unknownKeys then []
  else
    [
      ⟨.warning, .options,
        "Ignoring unknown options: " ++ ", ".intercalate options.unknownNames⟩
    ]

def isOn (name : String) (options : Entries) : Bool :=
  match options.get? name with
  | some (.bool b) => b
  | _ => false

/-- The names to leave alone. The spelling in one word counts before the other, and a single text
is a list of one. -/
def ignoredNames (options : Entries) : Except OptionsFault (List String) :=
  match (options.get? "ignoredComponents").or (options.get? "ignored-components") with
  | none => .ok []
  | some (.text name) => .ok [name]
  | some (.list names) => .ok (names.map Value.asText)
  | some found => .error (.ignoredIsNoList found)

/-- The values that are listed as the names to leave alone. -/
def ignoredValues (options : Entries) : List Value :=
  match (options.get? "ignoredComponents").or (options.get? "ignored-components") with
  | some (.list names) => names
  | _ => []

/-- The policy that a value names, in letters of any case. -/
def policyNamed : Value → Except OptionsFault Policy
  | .null => .ok .full
  | .text name =>
      if name.map Char.toUpper == "FULL" then .ok .full
      else if name.map Char.toUpper == "LEGACY" then .ok .legacy
      else .error (.unknownPolicy (.text name))
  | found => .error (if found.isShowable then .unknownPolicy found else .numberTooLong)

/-- The policy of the options. The experimental switch selects the legacy one, whatever policy is
named, but the name has to be right all the same. -/
def policy (options : Entries) : Except OptionsFault Policy := do
  let named ← policyNamed ((options.get? "policy").getD .null)
  return if options.isOn "experimental" then .legacy else named

end Entries

def Settings.ofOptions (options : Entries) : Except OptionsFault Settings := do
  Entries.checkShowable options.unknownKeys
  let ignored ← options.ignoredNames
  let policy ← options.policy
  Entries.checkShowable options.ignoredValues
  return {
    alternateNames := options.isOn "native"
    annotateFragments := options.isOn "annotate-fragments"
    ignoredComponents := ignored
    policy
  }

end JsxProvenance
