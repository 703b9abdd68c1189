import JsxProvenance.Options.Value
import JsxProvenance.Text.Blank
import JsxProvenance.Text.Split

/-!
Environment variables that override options. One that is set counts, whatever the options say; an
empty policy counts as not set.
-/

namespace JsxProvenance

/-- The variables that override options, as far as they are set. -/
structure Environment where
  native : Option String := none
  annotateFragments : Option String := none
  ignored : Option String := none
  policy : Option String := none
  deriving DecidableEq, Repr, Inhabited

namespace Environment

def isAffirmative (text : String) : Bool :=
  String.ofList ((trimBlanks text.toList).map Char.toLower) ∈ ["1", "true", "yes", "on"]

/-- The names between commas, without the white space around them. Empty ones are left out. -/
def nameList (text : String) : List String :=
  (((splitAtChar ',' text.toList).map trimBlanks).filter (!·.isEmpty)).map String.ofList

def overrides (e : Environment) : List (String × Value) :=
  ((e.native.map fun text => ("native", Value.bool (isAffirmative text))).toList
    ++ (e.annotateFragments.map fun text =>
      ("annotate-fragments", Value.bool (isAffirmative text))).toList
    ++ (e.ignored.map fun text =>
      ("ignoredComponents", Value.list ((nameList text).map Value.text))).toList)
    ++ ((e.policy.filter (!·.isEmpty)).map fun text => ("policy", Value.text text)).toList

def override (e : Environment) (options : Entries) : Entries :=
  e.overrides.foldl (fun all (name, value) => Entries.put (.text name) value all) options

end Environment
end JsxProvenance
