import JsxProvenance.Ast.Node
import JsxProvenance.Text.Quoted

/-!
Short descriptions of nodes. A description shows names and texts and counts the parts of a list.
-/

namespace JsxProvenance.Ast

/-- An optional name. -/
def describeName (name : Option String) : String :=
  name.getD "None"

/-- An optional text in quotes. -/
def describeText (text : Option String) : String :=
  (text.map Quoted.text).getD "None"

/-- A number of things. -/
def describeCount (parts : List Node) (things : String) : String :=
  toString parts.length ++ " " ++ things

/-- The description of syntax without parts. -/
def Leaf.describe : Leaf → String
  | identifier name => "Identifier(" ++ name ++ ")"
  | stringLiteral value => "String(" ++ Quoted.text value ++ ")"
  | importSpecifier kind imported localName =>
      "ImportSpecifier(" ++ kind ++ ", " ++ describeName imported ++ " as " ++ localName ++ ")"
  | patternProperty key value => "PatternProperty(" ++ key ++ ": " ++ describeName value ++ ")"
  | jsxText value => "JSXText(" ++ Quoted.text value ++ ")"
  | jsxAttribute name value _ => "Attribute(" ++ name ++ "=" ++ describeText value ++ ")"
  | jsxIdentifier name => "JSXIdentifier(" ++ name ++ ")"
  | jsxNamespacedName space name => "JSXNamespacedName(" ++ space ++ ":" ++ name ++ ")"

mutual

/-- The description of a node. -/
def Node.describe : Node → String
  | .absent => "None"
  | .plain text => Quoted.text text
  | .leaf _ form => form.describe
  | .wrap _ (.functionDeclaration name) _ => "Function(" ++ describeName name ++ ")"
  | .wrap _ .arrowFunction body => "Arrow(" ++ body.describe ++ ")"
  | .wrap _ (.methodDefinition name) _ => "Method(" ++ name ++ ")"
  | .wrap _ .returnStatement argument => "Return(" ++ argument.describe ++ ")"
  | .wrap _ (.memberExpression property) object =>
      "Member(" ++ object.describe ++ "." ++ property ++ ")"
  | .wrap _ .jsxExpressionContainer expression => "JSXExpression(" ++ expression.describe ++ ")"
  | .wrap _ (.jsxMemberExpression property) object =>
      "JSXMember(" ++ object.describe ++ "." ++ property ++ ")"
  | .declarator _ binding init =>
      "Declarator(" ++ binding.describe ++ " = " ++ init.describe ++ ")"
  | .conditional _ test consequent alternate =>
      "Conditional(" ++ test.describe ++ " ? " ++ consequent.describe ++ " : "
        ++ alternate.describe ++ ")"
  | .group _ (.program filename) parts =>
      "Program(" ++ filename ++ ", " ++ describeCount parts "statements" ++ ")"
  | .group _ (.importDeclaration source) specifiers =>
      "Import(" ++ Quoted.text source ++ ", " ++ Quoted.bracketed (describeList specifiers) ++ ")"
  | .group _ (.variableDeclaration kind) parts =>
      "Variables(" ++ kind ++ ", " ++ describeCount parts "declarators" ++ ")"
  | .group _ .objectPattern parts => "ObjectPattern(" ++ describeCount parts "properties" ++ ")"
  | .group _ (.classDeclaration name) parts =>
      "Class(" ++ describeName name ++ ", " ++ describeCount parts "members" ++ ")"
  | .group _ .blockStatement parts => "Block(" ++ describeCount parts "statements" ++ ")"
  | .group _ (.opaqueNode kind) parts =>
      "Opaque(" ++ kind ++ ", " ++ describeCount parts "children" ++ ")"
  | .group _ .jsxFragment parts => "JSXFragment(" ++ describeCount parts "children" ++ ")"
  | .element _ name _ children _ _ =>
      "JSXElement(" ++ name.describe ++ ", " ++ describeCount children "children" ++ ")"

/-- The descriptions of several nodes. -/
def Node.describeList : List Node → List String
  | [] => []
  | n :: rest => n.describe :: Node.describeList rest

end

end JsxProvenance.Ast
