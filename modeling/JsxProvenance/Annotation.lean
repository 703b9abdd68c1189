import JsxProvenance.Component.Discovery
import JsxProvenance.Traversal

/-!
The annotation of a program. The file guard comes first, then the components are found, then the
aliases of the file are collected, and only then the roots of each component are annotated in
order. A fault in the aliases therefore leaves nothing half done.
-/

namespace JsxProvenance

open Ast

/-- What was done for one component. -/
structure ComponentReport where
  name : String
  roots : Nat
  added : Nat
  deriving DecidableEq, Repr, Inhabited

/-- What was done in one file. -/
structure Report where
  /-- The file was left alone as a whole. -/
  skipped : Bool := false
  details : List ComponentReport := []
  deriving DecidableEq, Repr, Inhabited

namespace Report

/-- The names of the annotated components. -/
def components (r : Report) : List String :=
  r.details.map (·.name)

/-- The number of attributes added. -/
def attributesAdded (r : Report) : Nat :=
  (r.details.map (·.added)).foldr (· + ·) 0

/-- The report in one line. -/
def summary (r : Report) : String :=
  if r.skipped then "skipped"
  else
    toString r.components.length ++ " components, " ++ toString r.attributesAdded
      ++ " attributes added"

end Report

namespace Ast.Program

/-- The node at an address. -/
def get? (p : Program) (a : Address) : Option Node :=
  p.toNode.get? a

/-- Annotates from one root, given by its address. -/
def annotateAt (c : Context) (p : Program) (a : Address) : Program × Nat :=
  match p.get? a with
  | some root =>
      let result := annotateRoot c root
      (p.modifyAt (fun _ => result.1) a, result.2)
  | none => (p, 0)

/-- Annotates from several roots in turn. -/
def annotateAll (c : Context) (p : Program) : List Address → Program × Nat
  | [] => (p, 0)
  | a :: rest =>
      let first := p.annotateAt c a
      let others := first.1.annotateAll c rest
      (others.1, first.2 + others.2)

/-- Annotates the roots of several components in turn. -/
def annotateComponents (c : Context) (p : Program)
    : List Component → Program × List ComponentReport
  | [] => (p, [])
  | component :: rest =>
      let first := p.annotateAll (c.withComponent component.name) (component.roots.map (·.address))
      let others := first.1.annotateComponents c rest
      (others.1, ⟨component.name, component.roots.length, first.2⟩ :: others.2)

/-- Annotates a program. Without a path the program's own file name decides whether it is left
alone. -/
def annotate (settings : Settings) (path : Option String) (p : Program)
    : Except Fault (Program × Report) :=
  if isKnownIncompatible (some (path.getD p.filename)) settings.incompatiblePackages then
    .ok (p, { skipped := true })
  else do
    let aliases ← Aliases.collect p
    let result := p.annotateComponents { settings, aliases } (components p)
    return (result.1, { details := result.2 })

end Ast.Program
end JsxProvenance
