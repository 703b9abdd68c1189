import JsxProvenance.Ast.Node

/-!
The display name of a tag. Ignore lists, fragment detection and the written attributes all use
this one text for a tag.
-/

namespace JsxProvenance.Ast

/-- What stands for a tag name that cannot be shown. -/
def unknownName : String := "unknown"

namespace Node

/-- The text of what stands before a dot. A namespaced name is not shown there. -/
def objectName : Node → String
  | leaf _ (.jsxIdentifier name) => name
  | wrap _ (.jsxMemberExpression property) object => objectName object ++ "." ++ property
  | _ => unknownName

/-- The text of a tag name. Dotted names are shown in full and namespaces are left out. -/
def tagName : Node → String
  | plain text => text
  | leaf _ (.jsxIdentifier name) => name
  | leaf _ (.jsxNamespacedName _ name) => name
  | wrap _ (.jsxMemberExpression property) object => objectName object ++ "." ++ property
  | _ => unknownName

/-- The name of an element, unknown for all other nodes. -/
def elementName : Node → String
  | element _ name _ _ _ _ => name.tagName
  | _ => unknownName

/-- How a JSX node is shown in listings. -/
def label : Node → String
  | element _ name _ _ _ _ => name.tagName
  | _ => "<>"

end Node
end JsxProvenance.Ast
