import JsxProvenance.Ast.Walk
import JsxProvenance.Component.Guard

/-!
The components a file defines, and the JSX roots that each of them renders:

* a function or an arrow renders what its first direct return gives, both branches of a
  conditional;
* a class renders what any return inside its render method gives, without a look into
  conditionals.

A root is known by its address, since one root can belong to several components.
-/

namespace JsxProvenance

open Ast

/-- How a component is defined. -/
inductive ComponentKind where
  | functionStyle
  | arrowStyle
  | classStyle
  deriving DecidableEq, Repr, Inhabited

/-- The kind in capitals. -/
def ComponentKind.label : ComponentKind → String
  | functionStyle => "FUNCTION"
  | arrowStyle => "ARROW"
  | classStyle => "CLASS"

/-- The kind in small letters. -/
def ComponentKind.word : ComponentKind → String
  | functionStyle => "function"
  | arrowStyle => "arrow"
  | classStyle => "class"

/-- A component and the roots to annotate from. -/
structure Component where
  name : String
  kind : ComponentKind
  line : Nat
  roots : List Place
  deriving Repr, Inhabited

/-- A short description of a component. -/
def Component.describe (c : Component) : String :=
  "Component(" ++ c.name ++ ", " ++ c.kind.label ++ ", " ++ toString c.roots.length ++ " roots)"

/-- The name of the method whose returns count. -/
def renderMethod : String := "render"

/-- The branches of what a function returns. -/
def returnedRoots (argument : Place) : List Place :=
  match argument.node with
  | .conditional .. => [argument.part 1, argument.part 2].filter (·.node.isJsx)
  | n => if n.isJsx then [argument] else []

/-- The roots of a function's body: the body itself if it is JSX, else what the first direct
return of its block gives. -/
def functionRoots (body : Place) : List Place :=
  if body.node.isJsx then [body]
  else match body.node with
    | .group _ .blockStatement _ =>
        match body.slots.find? (·.node.isReturn) with
        | some statement => returnedRoots (statement.part 0)
        | none => []
    | _ => []

/-- The render method of a class: the first method of that name among its members. -/
def renderOf? (definition : Place) : Option Place :=
  match definition.node with
  | .group _ (.classDeclaration _) _ =>
      definition.slots.find? (·.node.isMethod renderMethod)
  | _ => none

/-- The JSX that the returns inside a place give, in walk order. -/
def returnedInside (body : Place) : List Place :=
  ((body.walk.filter (·.node.isReturn)).map (·.part 0)).filter (·.node.isJsx)

/-- The roots of a class. Plain text stands for names of tags only. A render method with a text as
its body is left out of the model, since no walk can start at one: it is taken to have no body. -/
def renderRoots (definition : Place) : List Place :=
  match renderOf? definition with
  | some method =>
      if (method.part 0).node.isSyntax then returnedInside (method.part 0) else []
  | none => []

/-- The component that a node defines, if it defines one. Functions and arrows need a name, and
only an arrow bound directly to a name counts. -/
def componentAt? (p : Place) : Option Component :=
  match p.node with
  | .wrap position (.functionDeclaration (some name)) _ =>
      if name = "" then none
      else some ⟨name, .functionStyle, position.line, functionRoots (p.part 0)⟩
  | .declarator position (.leaf _ (.identifier name)) (.wrap _ .arrowFunction _) =>
      if name = "" then none
      else some ⟨name, .arrowStyle, position.line, functionRoots ((p.part 1).part 0)⟩
  | .group position (.classDeclaration name) _ =>
      (renderOf? p).map fun _ => ⟨name.getD "", .classStyle, position.line, renderRoots p⟩
  | _ => none

/-- The definitions of a program in source order, also those without a root. -/
def definitions (p : Program) : List Component :=
  p.walk.filterMap componentAt?

/-- The components of a program in source order. One without a root is left out. -/
def components (p : Program) : List Component :=
  (definitions p).filter (!·.roots.isEmpty)

/-- The components to annotate in a file, none inside an incompatible package. Without a path the
program's own file name is used. -/
def discover (p : Program) (path : Option String) (packages : List String) : List Component :=
  if isKnownIncompatible (some (path.getD p.filename)) packages then [] else components p

end JsxProvenance
