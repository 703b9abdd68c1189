import JsxProvenance.Cst.Node
import JsxProvenance.Fragment.Aliases

/-!
The syntax tree of a concrete tree. Comments vanish, and so do parentheses around one expression.
Kinds that the pass does not reason about become opaque nodes with their children, errors of the
grammar among them, so every concrete tree has a syntax tree.
-/

namespace JsxProvenance

open Ast

/-- The kinds of concrete nodes that have a form of their own. -/
inductive Construct where
  | name
  | importStatement
  | variableDeclaration
  | declarator
  | objectPattern
  | functionStatement
  | arrow
  | classStatement
  | classExpression
  | method
  | block
  | returnStatement
  | parentheses
  | conditional
  | member
  | string
  | element
  | selfClosingElement
  | jsxText
  | jsxExpression
  | other
  deriving DecidableEq, Repr, Inhabited

/-- The kinds of leaves that are plain names. -/
def nameKinds : List String :=
  [
    "identifier", "property_identifier", "type_identifier", "shorthand_property_identifier",
    "jsx_identifier", "this"
  ]

/-- The construct of a kind. -/
def Construct.ofKind (kind : String) : Construct :=
  if kind ∈ nameKinds then name
  else match kind with
    | "import_statement" => importStatement
    | "lexical_declaration" => variableDeclaration
    | "variable_declaration" => variableDeclaration
    | "variable_declarator" => declarator
    | "object_pattern" => objectPattern
    | "function_declaration" => functionStatement
    | "arrow_function" => arrow
    | "class" => classExpression
    | "class_declaration" => classStatement
    | "abstract_class_declaration" => classStatement
    | "method_definition" => method
    | "statement_block" => block
    | "return_statement" => returnStatement
    | "parenthesized_expression" => parentheses
    | "ternary_expression" => conditional
    | "member_expression" => member
    | "string" => string
    | "jsx_element" => element
    | "jsx_self_closing_element" => selfClosingElement
    | "jsx_text" => jsxText
    | "jsx_expression" => jsxExpression
    | _ => other

namespace Cst

/-- The kinds of dotted tag names. -/
def dottedKinds : List String :=
  ["member_expression", "nested_identifier"]

mutual

/-- The tag name that a concrete node gives, absent where it gives none. A dotted name has its
object and its property as fields, or else as its only two parts. -/
def toTagName (source : List UInt8) : Cst → Node
  | n@(.node kind _ _ _ _ children) =>
      let position := n.position source
      if kind ∈ nameKinds then .leaf position (.jsxIdentifier (n.text source))
      else if kind == "jsx_namespace_name" then
        match n.parts with
        | [space, name] =>
            .leaf position (.jsxNamespacedName (space.text source) (name.text source))
        | _ => .absent
      else if kind ∈ dottedKinds then
        match n.field? "object", n.field? "property" with
        | some _, some property =>
            .wrap position (.jsxMemberExpression (property.text source))
              (fieldToTagName source "object" children)
        | _, _ =>
            match n.parts with
            | [_, property] =>
                .wrap position (.jsxMemberExpression (property.text source))
                  (firstToTagName source children)
            | _ => .absent
      else .absent

/-- The tag name that the first node of a field gives. -/
def fieldToTagName (source : List UInt8) (name : String) : List Cst → Node
  | [] => .absent
  | n :: rest =>
      if n.field == some name then toTagName source n else fieldToTagName source name rest

/-- The tag name that the first structural node gives. -/
def firstToTagName (source : List UInt8) : List Cst → Node
  | [] => .absent
  | n :: rest =>
      if n.isStructural then toTagName source n else firstToTagName source rest

end

/-- An attribute with a name. Only a string is kept as its value. -/
def toAttribute (source : List UInt8) (n : Cst) : Node :=
  let parts := n.parts
  let value :=
    match parts.tail.getLast? with
    | some last => if last.kind == "string" then some (last.stringValue source) else none
    | none => none
  .leaf (n.position source)
    (.jsxAttribute ((parts.head?.map (text source)).getD "") value false)

/-- Whether a part of a tag is an attribute or a spread. -/
def isTagAttribute (n : Cst) : Bool :=
  n.kind == "jsx_attribute" || n.kind == "jsx_expression"

/-- Where new attributes of a tag are written: after its last attribute, or after its name. -/
def insertOffset (tag : Cst) : Option Nat :=
  (tag.parts.filter isTagAttribute).foldl (fun offset n => some (max (offset.getD 0) n.stop))
    ((tag.field? "name").map stop)

/-- One binding of a named import. -/
def toNamedSpecifier (source : List UInt8) (n : Cst) : Node :=
  let imported := ((n.field? "name").map (stringValue source)).getD ""
  let localName := ((n.field? "alias").map (text source)).getD imported
  .leaf (n.position source) (.importSpecifier "named" (some imported) localName)

/-- The bindings that one part of an import clause makes. -/
def toSpecifiers (source : List UInt8) (n : Cst) : List Node :=
  let position := n.position source
  match n.kind with
  | "identifier" =>
      [.leaf position (.importSpecifier "default" (some "default") (n.text source))]
  | "namespace_import" =>
      match (n.parts.filter (·.kind == "identifier")).getLast? with
      | some name => [.leaf position (.importSpecifier "namespace" none (name.text source))]
      | none => []
  | "named_imports" =>
      (n.parts.filter (·.kind == "import_specifier")).map (toNamedSpecifier source)
  | _ => []

/-- An import. -/
def toImport (source : List UInt8) (n : Cst) : Node :=
  let clauses := n.children.filter fun c => c.named && c.kind == "import_clause"
  let module := ((n.field? "source").map (stringValue source)).getD ""
  .group (n.position source) (.importDeclaration module)
    (clauses.flatMap fun clause => clause.parts.flatMap (toSpecifiers source))

/-- The entry that one part of an object pattern makes. Defaults and rest entries make none. -/
def toProperty? (source : List UInt8) (n : Cst) : Option Node :=
  match n.kind with
  | "shorthand_property_identifier_pattern" =>
      let name := n.text source
      some (.leaf (n.position source) (.patternProperty name (some name)))
  | "pair_pattern" =>
      let value :=
        match n.field? "value" with
        | some v => if v.kind == "identifier" then some (v.text source) else none
        | none => none
      some (.leaf (n.position source) (.patternProperty (n.fieldText source "key") value))
  | _ => none

mutual

/-- The syntax of a concrete node. A class expression counts as a definition only directly inside
an export. -/
def toAst (source : List UInt8) (exported : Bool) : Cst → Node
  | n@(.node kind _ _ _ _ children) =>
      let position := n.position source
      match Construct.ofKind kind with
      | .name => .leaf position (.identifier (n.text source))
      | .importStatement => toImport source n
      | .variableDeclaration =>
          .group position
            (.variableDeclaration ((children.head?.map (text source)).getD "var"))
            (declaratorsToAst source children)
      | .declarator =>
          .declarator position (fieldToAst source "name" children)
            (fieldToAst source "value" children)
      | .objectPattern =>
          .group position .objectPattern (n.parts.filterMap (toProperty? source))
      | .functionStatement =>
          .wrap position (.functionDeclaration ((n.field? "name").map (text source)))
            (fieldToAst source "body" children)
      | .arrow => .wrap position .arrowFunction (fieldToAst source "body" children)
      | .classStatement =>
          .group position (.classDeclaration ((n.field? "name").map (text source)))
            (membersToAst source children)
      | .classExpression =>
          if exported then
            .group position (.classDeclaration ((n.field? "name").map (text source)))
              (membersToAst source children)
          else .group position (.opaqueNode kind) (listToAst source false children)
      | .method =>
          .wrap position (.methodDefinition (n.fieldText source "name"))
            (fieldToAst source "body" children)
      | .block => .group position .blockStatement (listToAst source false children)
      | .returnStatement => .wrap position .returnStatement (firstToAst source children)
      | .parentheses =>
          if n.parts.length = 1 then firstToAst source children
          else .group position (.opaqueNode kind) (listToAst source false children)
      | .conditional =>
          .conditional position (fieldToAst source "condition" children)
            (fieldToAst source "consequence" children) (fieldToAst source "alternative" children)
      | .member =>
          .wrap position (.memberExpression (n.fieldText source "property"))
            (fieldToAst source "object" children)
      | .string => .leaf position (.stringLiteral (n.stringValue source))
      | .element =>
          match n.field? "open_tag" with
          | some tag =>
              match tag.field? "name" with
              | some name =>
                  .element (tag.position source) (name.toTagName source)
                    (openTagToAst source children) (contentToAst source children) false
                    tag.insertOffset
              | none => .group position .jsxFragment (contentToAst source children)
          | none => .group position .jsxFragment (contentToAst source children)
      | .selfClosingElement =>
          .element position (((n.field? "name").map (toTagName source)).getD .absent)
            (attributesToAst source children) [] true n.insertOffset
      | .jsxText => .leaf position (.jsxText (n.text source))
      | .jsxExpression => .wrap position .jsxExpressionContainer (firstToAst source children)
      | .other =>
          .group position (.opaqueNode kind) (listToAst source (kind == exportKind) children)

/-- The syntax of the structural nodes of a list. -/
def listToAst (source : List UInt8) (exported : Bool) : List Cst → List Node
  | [] => []
  | n :: rest =>
      if n.isStructural then toAst source exported n :: listToAst source exported rest
      else listToAst source exported rest

/-- The syntax of the first structural node. -/
def firstToAst (source : List UInt8) : List Cst → Node
  | [] => .absent
  | n :: rest => if n.isStructural then toAst source false n else firstToAst source rest

/-- The syntax of the first node of a field. -/
def fieldToAst (source : List UInt8) (name : String) : List Cst → Node
  | [] => .absent
  | n :: rest =>
      if n.field == some name then toAst source false n else fieldToAst source name rest

/-- The declarators among structural nodes. -/
def declaratorsToAst (source : List UInt8) : List Cst → List Node
  | [] => []
  | n :: rest =>
      if n.isStructural && n.kind == "variable_declarator" then
        toAst source false n :: declaratorsToAst source rest
      else declaratorsToAst source rest

/-- The members in the body of a class. -/
def membersToAst (source : List UInt8) : List Cst → List Node
  | [] => []
  | n@(.node kind _ _ _ _ children) :: rest =>
      if n.field == some "body" then listToAst source (kind == exportKind) children
      else membersToAst source rest

/-- What stands between the tags of an element. -/
def contentToAst (source : List UInt8) : List Cst → List Node
  | [] => []
  | n :: rest =>
      if n.isStructural && n.kind != "jsx_opening_element" && n.kind != "jsx_closing_element" then
        toAst source false n :: contentToAst source rest
      else contentToAst source rest

/-- The attributes and spreads of a tag. A spread is opaque. -/
def attributesToAst (source : List UInt8) : List Cst → List Node
  | [] => []
  | n@(.node kind _ _ _ _ children) :: rest =>
      if n.isStructural && kind == "jsx_attribute" then
        toAttribute source n :: attributesToAst source rest
      else if n.isStructural && kind == "jsx_expression" then
        .group (n.position source) (.opaqueNode kind) (listToAst source false children)
          :: attributesToAst source rest
      else attributesToAst source rest

/-- The attributes and spreads of the opening tag of an element. -/
def openTagToAst (source : List UInt8) : List Cst → List Node
  | [] => []
  | n@(.node _ _ _ _ _ children) :: rest =>
      if n.field == some "open_tag" then attributesToAst source children
      else openTagToAst source rest

end

/-- The program of a concrete tree. -/
def toProgram (filename : String) (source : List UInt8) (root : Cst) : Program where
  filename
  source
  position := ⟨1, 1⟩
  body := listToAst source (root.kind == exportKind) root.children

end Cst
end JsxProvenance
