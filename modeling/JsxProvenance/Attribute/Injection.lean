import JsxProvenance.Fragment.Classify
import JsxProvenance.Settings
import JsxProvenance.Text.LetterCase

/-!
The attributes that a single element gains. Every attribute is looked for by name before it is
added, and an ignored element or component gains none.
-/

namespace JsxProvenance

open Ast

/-- What is known at one node. The empty component name assigns none. -/
structure Context where
  settings : Settings
  aliases : Aliases := {}
  component : String := ""
  deriving Repr, Inhabited

/-- The same context under another component name. -/
def Context.withComponent (c : Context) (name : String) : Context :=
  { c with component := name }

/-- What happens at one element. -/
structure Injection where
  elementName : String := ""
  /-- The names and values of the new attributes, in order. -/
  additions : List (String × String) := []
  ignored : Bool := false
  /-- The tag is one that gets no element attribute. -/
  suppressed : Bool := false
  /-- The element is one that can be annotated. -/
  target : Bool := false
  deriving DecidableEq, Repr, Inhabited

/-- The names of the new attributes. -/
def Injection.added (i : Injection) : List String :=
  i.additions.map (·.1)

/-- Whether the name of an element or of its component is on the list. No component name never
is. -/
def isIgnored (name component : String) (ignored : List String) : Bool :=
  ignored.any fun entry => entry == name || (component != "" && entry == component)

/-- One attribute, unless it is present or there is no value for it. -/
def Ast.Node.missingAttribute (n : Node) (name value : String) : List (String × String) :=
  if value != "" && !n.hasAttribute name then [(name, value)] else []

/-- What the full policy does at one node: the element attribute unless the tag is suppressed, the
component attribute if there is a component name, and the source file if there is one and the
element is named or not suppressed. -/
def fullInjection (c : Context) (n : Node) : Injection :=
  if classify (some c.aliases) n != .element then {}
  else
    let names := c.settings.attributeNames
    let name := n.elementName
    if isIgnored name c.component c.settings.ignoredComponents then
      { elementName := name, ignored := true, target := true }
    else
      let present := n.hasAttribute names.element
      let suppressed := !present && name ∈ c.settings.ignoredElements
      let element := if present || suppressed then [] else [(names.element, name)]
      let component := n.missingAttribute names.component c.component
      let file :=
        if c.component != "" || !suppressed then
          n.missingAttribute names.sourceFile (c.settings.sourceFileName.getD "")
        else []
      {
        elementName := name
        additions := element ++ component ++ file
        suppressed
        target := true
      }

/-- Whether an element is a host element rather than a component: its name does not start with an
upper-case letter, or it is a native primitive. A name that cannot be shown is none. -/
def isHostElement (name : String) : Bool :=
  name != unknownName
    && ((name.toList.head?.any fun c => !changesInLowerCase c) || name ∈ nativeElements)

/-- What the legacy policy does at one node: the component attribute, on host elements only. An
ignored or already annotated host is a target too. -/
def legacyInjection (c : Context) (n : Node) : Injection :=
  if classify (some c.aliases) n != .element then {}
  else
    let name := n.elementName
    if !isHostElement name then
      { elementName := name }
    else if isIgnored name c.component c.settings.ignoredComponents then
      { elementName := name, ignored := true, target := true }
    else
      {
        elementName := name
        additions := n.missingAttribute c.settings.attributeNames.component c.component
        target := true
      }

/-- The element with its new attributes. -/
def Injection.apply (i : Injection) (n : Node) : Node :=
  n.appendAttributes i.additions

end JsxProvenance
