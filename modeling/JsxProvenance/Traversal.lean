import JsxProvenance.Attribute.Injection

/-!
The two ways down from a root. Both follow only the children of elements and fragments.

The full policy visits every element. Only the root carries the component name, but a root
fragment can hand it to its first element child.

The legacy policy keeps the component name in scope all the way down, and stops on each path at
the first host element.
-/

namespace JsxProvenance

open Ast

mutual

/-- Annotates a tree under the full policy. The name goes to the root, or from a root fragment to
its first element child if fragments are annotated. -/
def annotateFull (c : Context) (name : String) : Node → Node × Nat
  | n@(.element p tag attrs children sc off) =>
      let handed :=
        if isFragment (some c.aliases) n && c.settings.annotateFragments then name else ""
      let injection := fullInjection (c.withComponent name) n
      let below := annotateFullList c handed children
      (
        .element p tag (attrs ++ Node.insertedAttributes p injection.additions) below.1 sc off,
        injection.additions.length + below.2
      )
  | .group p .jsxFragment children =>
      let handed := if c.settings.annotateFragments then name else ""
      let below := annotateFullList c handed children
      (.group p .jsxFragment below.1, below.2)
  | n => (n, 0)

/-- Annotates the children of a node. The name goes to the first child that is an element. -/
def annotateFullList (c : Context) (name : String) : List Node → List Node × Nat
  | [] => ([], 0)
  | n :: rest =>
      let taken := classify (some c.aliases) n == .element
      let first := annotateFull c (if taken then name else "") n
      let others := annotateFullList c (if taken then "" else name) rest
      (first.1 :: others.1, first.2 + others.2)

end

mutual

/-- Annotates a tree under the legacy policy. -/
def annotateLegacy (c : Context) : Node → Node × Nat
  | n@(.element p tag attrs children sc off) =>
      let injection := legacyInjection c n
      if injection.target then
        (injection.apply n, injection.additions.length)
      else
        let below := annotateLegacyList c children
        (.element p tag attrs below.1 sc off, below.2)
  | .group p .jsxFragment children =>
      let below := annotateLegacyList c children
      (.group p .jsxFragment below.1, below.2)
  | n => (n, 0)

/-- Annotates the children of a node under the legacy policy. -/
def annotateLegacyList (c : Context) : List Node → List Node × Nat
  | [] => ([], 0)
  | n :: rest =>
      let first := annotateLegacy c n
      let others := annotateLegacyList c rest
      (first.1 :: others.1, first.2 + others.2)

end

/-- Annotates a tree from its root and counts the attributes added. A root that is no JSX is left
alone, and so is a component whose own name is ignored. -/
def annotateRoot (c : Context) (root : Node) : Node × Nat :=
  if !root.isJsx then (root, 0)
  else if c.component != "" && c.component ∈ c.settings.ignoredComponents then (root, 0)
  else match c.settings.policy with
    | .full => annotateFull c c.component root
    | .legacy => annotateLegacy c root

end JsxProvenance
