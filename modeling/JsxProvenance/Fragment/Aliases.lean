import JsxProvenance.Ast.Node

/-!
The local names under which a file knows the fragment component and the namespace that exports it.
One pass over the top-level statements, in source order, collects them:

* `import { Fragment as F } from "react"` makes `F` a fragment;
* `import React from "react"` and `import * as R from "react"` make a namespace;
* `const G = F` and `const G = R.Fragment` make `G` a fragment if `F` or `R` is known by then;
* `const { Fragment: G } = R` does so too.
-/

namespace JsxProvenance

open Ast

/-- The exported name of the fragment component. -/
def fragmentName : String := "Fragment"

/-- The namespace that is known without any import. -/
def defaultNamespace : String := "React"

/-- The modules that export the fragment component. -/
def providerModules : List String := ["react", "React"]

/-- The names that stand for a fragment, and those that stand for the namespace. -/
structure Aliases where
  fragments : List String := []
  namespaces : List String := [defaultNamespace]
  deriving DecidableEq, Repr, Inhabited

/-- Syntax in a place where only one form can be read. -/
inductive Fault where
  | noSpecifier (found : Node)
  | noDeclarator (found : Node)
  | noPatternProperty (found : Node)
  deriving Repr, Inhabited

namespace Fault

/-- The node that was found. -/
def found : Fault → Node
  | noSpecifier n => n
  | noDeclarator n => n
  | noPatternProperty n => n

/-- The property that was looked for and is missing. A specifier is asked for its kind first, and
then, if it has a kind, for the name that this kind of specifier has. -/
def missing : Fault → String
  | noSpecifier (.group _ (.opaqueNode kind) _) => if kind == "named" then "imported" else "local"
  | noSpecifier (.group _ (.variableDeclaration kind) _) =>
      if kind == "named" then "imported" else "local"
  | noSpecifier _ => "kind"
  | noDeclarator _ => "init"
  | noPatternProperty _ => "key"

/-- The text of the fault. -/
def message (f : Fault) : String :=
  "'" ++ f.found.typeName ++ "' object has no attribute '" ++ f.missing ++ "'"

end Fault

namespace Aliases

/-- Makes a name stand for a fragment. -/
def addFragment (a : Aliases) (name : String) : Aliases :=
  { a with fragments := a.fragments.insert name }

/-- Makes a name stand for the namespace. -/
def addNamespace (a : Aliases) (name : String) : Aliases :=
  { a with namespaces := a.namespaces.insert name }

/-- Reads one specifier of an import from a provider module. -/
def bindSpecifier (a : Aliases) : Node → Except Fault Aliases
  | .leaf _ (.importSpecifier kind imported localName) =>
      if kind == "named" then
        .ok (if imported == some fragmentName then a.addFragment localName else a)
      else
        .ok (if localName != "" then a.addNamespace localName else a)
  | n => .error (.noSpecifier n)

/-- Reads one entry of an object pattern that takes the namespace apart. -/
def bindProperty (a : Aliases) : Node → Except Fault Aliases
  | .leaf _ (.patternProperty key value) =>
      match value with
      | some name =>
          .ok (if key == fragmentName && name != "" then a.addFragment name else a)
      | none => .ok a
  | n => .error (.noPatternProperty n)

/-- Whether an initial value is known to be a fragment. -/
def isFragmentValue (a : Aliases) : Node → Bool
  | .leaf _ (.identifier name) => name ∈ a.fragments
  | .wrap _ (.memberExpression property) (.leaf _ (.identifier object)) =>
      object ∈ a.namespaces && property == fragmentName
  | _ => false

/-- Whether an initial value is known to be the namespace. -/
def isNamespaceValue (a : Aliases) : Node → Bool
  | .leaf _ (.identifier name) => name ∈ a.namespaces
  | _ => false

/-- Reads one declarator. -/
def bindDeclarator (a : Aliases) : Node → Except Fault Aliases
  | .declarator _ (.leaf _ (.identifier name)) init =>
      .ok (if a.isFragmentValue init then a.addFragment name else a)
  | .declarator _ (.group _ .objectPattern properties) init =>
      if a.isNamespaceValue init then properties.foldlM bindProperty a else .ok a
  | .declarator .. => .ok a
  | n => .error (.noDeclarator n)

/-- Reads one top-level statement. -/
def bindStatement (a : Aliases) : Node → Except Fault Aliases
  | .group _ (.importDeclaration source) specifiers =>
      if source ∈ providerModules then specifiers.foldlM bindSpecifier a else .ok a
  | .group _ (.variableDeclaration _) declarators => declarators.foldlM bindDeclarator a
  | _ => .ok a

end Aliases

/-- The kind of opaque syntax that an export makes of its declaration. -/
def exportKind : String := "export_statement"

/-- The statements of a file, those of an export in its place. -/
def topLevelStatements (body : List Node) : List Node :=
  body.flatMap fun
    | .group p (.opaqueNode kind) parts =>
        if kind == exportKind then parts else [.group p (.opaqueNode kind) parts]
    | n => [n]

/-- The aliases of a file. -/
def Aliases.collect (p : Program) : Except Fault Aliases :=
  (topLevelStatements p.body).foldlM bindStatement {}

end JsxProvenance
