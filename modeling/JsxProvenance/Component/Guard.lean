import JsxProvenance.Text.Split

/-!
The file guard: files inside an installed package that is known not to bear annotation are left
alone. Both separators are recognised, each with itself.
-/

namespace JsxProvenance

/-- The text that a path into an installed package contains. -/
def packageMark (separator : Char) (package : String) : List Char :=
  separator :: ("node_modules".toList ++ separator :: (package.toList ++ [separator]))

/-- Whether a file lies inside one of the packages. No path, and the empty one, lies in none. -/
def isKnownIncompatible (path : Option String) (packages : List String) : Bool :=
  path.any fun text =>
    !text.toList.isEmpty
      && packages.any fun package =>
        occursIn (packageMark '/' package) text.toList
          || occursIn (packageMark '\\' package) text.toList

end JsxProvenance
