/-!
The syntax tree that annotation works on. Only the shapes the pass reasons about have a form
of their own: imports, declarators, functions, classes, returns, conditionals and JSX. All other
syntax is `opaque` and keeps its children, so that code nested in it is still reached.

A node is sorted by the parts it holds: none, one, two, three, a list, or the two lists of an
element. Any node may stand in any part, also `absent`.
-/

namespace JsxProvenance

/-- A place in a source text. Lines and columns count from one, and a column counts bytes. -/
structure Position where
  line : Nat := 0
  column : Nat := 0
  deriving DecidableEq, Repr, Inhabited

namespace Ast

/-- The syntax without parts of its own. -/
inductive Leaf where
  | identifier (name : String)
  | stringLiteral (value : String)
  /-- One binding of an import. A named import is exported as `imported`, visible as `localName`. -/
  | importSpecifier (kind : String) (imported : Option String) (localName : String)
  /-- One entry of an object pattern. The value is none for a nested pattern. -/
  | patternProperty (key : String) (value : Option String)
  | jsxText (value : String)
  /-- An attribute of a tag. The value is some string only when a string was written or inserted. -/
  | jsxAttribute (name : String) (value : Option String) (inserted : Bool)
  | jsxIdentifier (name : String)
  | jsxNamespacedName (space name : String)
  deriving DecidableEq, Repr, Inhabited

/-- The syntax with a single part. -/
inductive Wrapper where
  /-- A named function statement; the part is its body. -/
  | functionDeclaration (name : Option String)
  /-- An arrow function; the part is its block or its expression. -/
  | arrowFunction
  | methodDefinition (name : String)
  | returnStatement
  /-- A property read; the part is the object. -/
  | memberExpression (property : String)
  /-- Braces among the children of an element; the part is the expression. -/
  | jsxExpressionContainer
  /-- A dotted tag name; the part is the object. -/
  | jsxMemberExpression (property : String)
  deriving DecidableEq, Repr, Inhabited

/-- The syntax with a list of parts. -/
inductive Group where
  | program (filename : String)
  | importDeclaration (source : String)
  | variableDeclaration (kind : String)
  | objectPattern
  | classDeclaration (name : Option String)
  | blockStatement
  | opaqueNode (kind : String)
  | jsxFragment
  deriving DecidableEq, Repr, Inhabited

/-- A node of the syntax tree. -/
inductive Node where
  /-- Nothing stands here. -/
  | absent
  /-- A tag name given as plain text. -/
  | plain (text : String)
  | leaf (position : Position) (form : Leaf)
  | wrap (position : Position) (form : Wrapper) (part : Node)
  | declarator (position : Position) (binding init : Node)
  | conditional (position : Position) (test consequent alternate : Node)
  | group (position : Position) (form : Group) (parts : List Node)
  /-- An element with its opening tag folded in. New attributes are written at `insertOffset`. -/
  | element (position : Position) (name : Node) (attributes children : List Node)
      (selfClosing : Bool) (insertOffset : Option Nat)
  deriving Repr, Inhabited

/-- A whole file: its syntax and the bytes it was read from. -/
structure Program where
  filename : String := "<unknown>"
  source : List UInt8 := []
  position : Position := {}
  body : List Node := []
  deriving Repr, Inhabited

namespace Node

/-- Whether the node is syntax, rather than nothing or a plain text. -/
def isSyntax : Node → Bool
  | absent => false
  | plain _ => false
  | _ => true

/-- The position of the node, zero where there is no syntax. -/
def position : Node → Position
  | absent => {}
  | plain _ => {}
  | leaf p _ => p
  | wrap p _ _ => p
  | declarator p _ _ => p
  | conditional p _ _ _ => p
  | group p _ _ => p
  | element p _ _ _ _ _ => p

/-- Whether the node is an element or a shorthand fragment. -/
def isJsx : Node → Bool
  | element .. => true
  | group _ .jsxFragment _ => true
  | _ => false

/-- Whether the node is a return statement. -/
def isReturn : Node → Bool
  | wrap _ .returnStatement _ => true
  | _ => false

/-- Whether the node is a method of the given name. -/
def isMethod (name : String) : Node → Bool
  | wrap _ (.methodDefinition n) _ => n == name
  | _ => false

/-- Whether the node is a JSX attribute of the given name. A spread is none. -/
def isAttribute (name : String) : Node → Bool
  | leaf _ (.jsxAttribute n _ _) => n == name
  | _ => false

/-- The attribute list of an element, empty for all other nodes. -/
def attributes : Node → List Node
  | element _ _ attrs _ _ _ => attrs
  | _ => []

/-- Whether an element carries an attribute of this name. The empty name is never carried. -/
def hasAttribute (n : Node) (name : String) : Bool :=
  name != "" && n.attributes.any (isAttribute name)

/-- The value of the first attribute of this name. -/
def attributeValue? (n : Node) (name : String) : Option String :=
  (n.attributes.find? (isAttribute name)).bind fun
    | leaf _ (.jsxAttribute _ value _) => value
    | _ => none

/-- New attributes, marked as inserted. -/
def insertedAttributes (p : Position) (additions : List (String × String)) : List Node :=
  additions.map fun (name, value) => leaf p (.jsxAttribute name (some value) true)

/-- The element with more attributes, which stand where the element stands. -/
def appendAttributes (additions : List (String × String)) : Node → Node
  | element p name attrs children sc off =>
      element p name (attrs ++ insertedAttributes p additions) children sc off
  | n => n

/-- The word for the form of a node. -/
def typeName : Node → String
  | absent => "NoneType"
  | plain _ => "str"
  | leaf _ (.identifier _) => "Identifier"
  | leaf _ (.stringLiteral _) => "StringLiteral"
  | leaf _ (.importSpecifier ..) => "ImportSpecifier"
  | leaf _ (.patternProperty ..) => "PatternProperty"
  | leaf _ (.jsxText _) => "JSXText"
  | leaf _ (.jsxAttribute ..) => "JSXAttribute"
  | leaf _ (.jsxIdentifier _) => "JSXIdentifier"
  | leaf _ (.jsxNamespacedName ..) => "JSXNamespacedName"
  | wrap _ (.functionDeclaration _) _ => "FunctionDeclaration"
  | wrap _ .arrowFunction _ => "ArrowFunction"
  | wrap _ (.methodDefinition _) _ => "MethodDefinition"
  | wrap _ .returnStatement _ => "ReturnStatement"
  | wrap _ (.memberExpression _) _ => "MemberExpression"
  | wrap _ .jsxExpressionContainer _ => "JSXExpressionContainer"
  | wrap _ (.jsxMemberExpression _) _ => "JSXMemberExpression"
  | declarator .. => "VariableDeclarator"
  | conditional .. => "ConditionalExpression"
  | group _ (.program _) _ => "Program"
  | group _ (.importDeclaration _) _ => "ImportDeclaration"
  | group _ (.variableDeclaration _) _ => "VariableDeclaration"
  | group _ .objectPattern _ => "ObjectPattern"
  | group _ (.classDeclaration _) _ => "ClassDeclaration"
  | group _ .blockStatement _ => "BlockStatement"
  | group _ (.opaqueNode _) _ => "OpaqueNode"
  | group _ .jsxFragment _ => "JSXFragment"
  | element .. => "JSXElement"

end Node

/-- The program as the root node of its tree. -/
def Program.toNode (p : Program) : Node :=
  .group p.position (.program p.filename) p.body

end Ast
end JsxProvenance
