import JsxProvenance.Ast.TagName
import JsxProvenance.Fragment.Aliases

/-!
What a node is for annotation. A fragment groups its children without rendering markup and is
never annotated, whether it is written `<>`, by a literal name, or by an alias of the file.
-/

namespace JsxProvenance

open Ast

/-- What a node is for annotation. -/
inductive NodeKind where
  | element
  | fragment
  | text
  | other
  deriving DecidableEq, Repr, Inhabited

/-- The tag names that are fragments even if the file never imports them. -/
def literalFragmentNames : List String :=
  [fragmentName, defaultNamespace ++ "." ++ fragmentName]

/-- Whether a tag is a fragment by the aliases of the file: an alias itself, or the fragment
component read from a namespace, or from a name that is an alias. -/
def Aliases.isFragmentTag (a : Aliases) (tag : Node) : Bool :=
  tag.tagName ∈ a.fragments
    || match tag with
      | .wrap _ (.jsxMemberExpression property) (.leaf _ (.jsxIdentifier object)) =>
          property == fragmentName && (object ∈ a.namespaces || object ∈ a.fragments)
      | _ => false

/-- Whether a node is a fragment. Without aliases only the literal names count. -/
def isFragment (aliases? : Option Aliases) : Node → Bool
  | .group _ .jsxFragment _ => true
  | .element _ tag _ _ _ _ =>
      tag.tagName ∈ literalFragmentNames || aliases?.any (·.isFragmentTag tag)
  | _ => false

/-- What a node is for annotation. -/
def classify (aliases? : Option Aliases) (n : Node) : NodeKind :=
  if isFragment aliases? n then .fragment
  else match n with
    | .element .. => .element
    | .leaf _ (.jsxText _) => .text
    | _ => .other

end JsxProvenance
