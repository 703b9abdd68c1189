import JsxProvenance.Component.Discovery
import JsxProvenance.Proofs.Fields.Classify

/-! The walk of a tree and the discovery of components, read field by field. The walk puts nothing but
syntax on its stack, and discovery looks at the form of a node before it reads on, so both always
come to the end.
-/

namespace JsxProvenance

open Ast

-----------------------------------------------------------------------------------------
-- The walk
-----------------------------------------------------------------------------------------

namespace Ast

namespace Place

/-- The part in a field. -/
def readPart (p : Place) (field : String) : Except Missing Place :=
  (p.node.readPart field).map fun slot => ⟨p.address ++ [slot.1], slot.2⟩

/-- The parts in a field. -/
def readParts (p : Place) (field : String) : Except Missing (List Place) :=
  (p.node.readParts field).map fun slots => slots.map fun slot => ⟨p.address ++ [slot.1], slot.2⟩

/-- The parts of a node that are syntax, found by reading all its fields one after the other. What is
no syntax has no fields to ask for.
-/
def childrenByField (p : Place) : Except Missing (List Place) := do
  if p.node.isSyntax then
    let contents ← (p.node.fields.map (·.1)).mapM (p.node.read some)
    let parts := (contents.flatMap Content.slots).map fun slot => ⟨p.address ++ [slot.1], slot.2⟩
    return parts.filter (·.node.isSyntax)
  else throw ⟨p.node.typeName, "fields"⟩

theorem mapM_read_fields (n : Node)
    : (n.fields.map (·.1)).mapM (n.read some) = .ok (n.fields.map (·.2)) := by
  cases n with
  | absent | plain => rfl
  | leaf p form => cases form <;> rfl
  | wrap p form => cases form <;> rfl
  | group p form => cases form <;> rfl
  | _ => rfl

theorem childrenByField_eq {p : Place} (syntactic : p.node.isSyntax = true)
    : p.childrenByField = .ok p.children := by
  rw [childrenByField, if_pos syntactic, mapM_read_fields, children, slots, Node.slots_eq_fields]
  change Except.ok _ = _
  rw [List.flatMap_map]

theorem stackSize_lt_of_childrenByField {p : Place} {children : List Place}
    (given : p.childrenByField = .ok children)
    : stackSize children < p.node.size := by
  by_cases syntactic : p.node.isSyntax = true
  · obtain rfl := Except.ok.inj ((childrenByField_eq syntactic).symm.trans given)
    exact p.stackSize_children_lt
  · rw [childrenByField, if_neg syntactic] at given
    cases given

end Place

/-- The walk of the places on a stack, where the parts of each are found field by field. -/
def walkByField : List Place → Except Missing (List Place)
  | [] => .ok []
  | p :: pending =>
      match _ : p.childrenByField with
      | .error missing => .error missing
      | .ok children => (walkByField (children ++ pending)).map (p :: ·)
termination_by stack => stackSize stack
decreasing_by
  rw [stackSize_append, stackSize_cons]
  exact Nat.add_lt_add_right (Place.stackSize_lt_of_childrenByField ‹_›) _

/-- A walk of syntax meets syntax only, by induction along the walk. -/
theorem walkByField_eq {stack : List Place} (syntactic : ∀ p ∈ stack, p.node.isSyntax = true)
    : walkByField stack = .ok (walkFrom stack) := by
  induction stack using walkFrom.induct with
  | case1 => rw [walkByField, walkFrom]
  | case2 p pending ih =>
      obtain ⟨first, others⟩ := List.forall_mem_cons.mp syntactic
      have read := Place.childrenByField_eq first
      have below : ∀ q ∈ p.children ++ pending, q.node.isSyntax = true := by
        intro q member
        rcases List.mem_append.mp member with child | later
        · exact (List.mem_filter.mp child).2
        · exact others q later
      rw [walkByField, walkFrom]
      split
      · next failed => cases read.symm.trans failed
      · next same =>
          cases read.symm.trans same
          rw [ih below]
          rfl

end Ast

-----------------------------------------------------------------------------------------
-- Roots
-----------------------------------------------------------------------------------------

/-- Whether a node is an element or a shorthand fragment, by the word for its form. -/
def isJsxByForm (n : Node) : Bool :=
  n.typeName == "JSXElement" || n.typeName == "JSXFragment"

/-- The branches of what a function returns, read field by field. -/
def returnedRootsByField (argument : Place) : Except Missing (List Place) := do
  if argument.node.typeName = "NoneType" then
    return []
  else if argument.node.typeName = "ConditionalExpression" then
    let consequent ← argument.readPart "consequent"
    let alternate ← argument.readPart "alternate"
    return [consequent, alternate].filter (isJsxByForm ·.node)
  else if isJsxByForm argument.node then
    return [argument]
  else return []

/-- The roots of a function's body, read field by field. -/
def functionRootsByField (body : Place) : Except Missing (List Place) := do
  if isJsxByForm body.node then
    return [body]
  else if body.node.typeName = "BlockStatement" then
    let statements ← body.readParts "body"
    match statements.find? (·.node.typeName == "ReturnStatement") with
    | some statement => do
        let argument ← statement.readPart "argument"
        returnedRootsByField argument
    | none => return []
  else return []

/-- The first method of a name among the members of a class, read field by field. -/
def methodByField (definition : Place) (name : String) : Except Missing (Option Place) := do
  let members ← definition.readParts "members"
  members.findM? fun member =>
    if member.node.typeName = "MethodDefinition" then do
      return (← member.node.readText "name") == name
    else return false

/-- What a return inside a render method gives, if it is JSX, read field by field. -/
def returnedJsxByField (p : Place) : Except Missing (Option Place) := do
  if p.node.typeName = "ReturnStatement" then
    let argument ← p.readPart "argument"
    return if isJsxByForm argument.node then some argument else none
  else return none

/-- The roots of a class, read field by field. A walk that starts at a text would fail: a render
method with one as its body is left out here, as in the direct definition.
-/
def renderRootsByField (definition : Place) : Except Missing (List Place) := do
  match ← methodByField definition renderMethod with
  | none => return []
  | some method =>
      let body ← method.readPart "body"
      -- nothing is no body, and neither is a text, which only stands for the name of a tag
      if body.node.isSyntax then
        let places ← walkByField [body]
        return (← places.mapM returnedJsxByField).reduceOption
      else return []

theorem isJsxByForm_eq (n : Node) : isJsxByForm n = n.isJsx := by
  cases n with
  | leaf p form => cases form <;> rfl
  | wrap p form => cases form <;> rfl
  | group p form => cases form <;> rfl
  | _ => rfl

theorem isReturn_eq (n : Node) : (n.typeName == "ReturnStatement") = n.isReturn := by
  cases n with
  | leaf p form => cases form <;> rfl
  | wrap p form => cases form <;> rfl
  | group p form => cases form <;> rfl
  | _ => rfl

theorem Ast.Place.readPart_of_isReturn {p : Place} (isReturn : p.node.isReturn = true)
    : p.readPart "argument" = .ok (p.part 0) := by
  obtain ⟨a, n⟩ := p
  cases n with
  | wrap position form argument =>
      cases form with
      | returnStatement => rfl
      | _ => cases isReturn
  | _ => cases isReturn

theorem Ast.Place.readPart_of_isMethod {p : Place} {name : String}
    (isMethod : p.node.isMethod name = true)
    : p.readPart "body" = .ok (p.part 0) := by
  obtain ⟨a, n⟩ := p
  cases n with
  | wrap position form body =>
      cases form with
      | methodDefinition => rfl
      | _ => cases isMethod
  | _ => cases isMethod

theorem returnedRootsByField_eq (argument : Place)
    : returnedRootsByField argument = .ok (returnedRoots argument) := by
  obtain ⟨a, n⟩ := argument
  unfold returnedRootsByField returnedRoots
  simp only [isJsxByForm_eq]
  cases n with
  | leaf p form => cases form <;> rfl
  | wrap p form => cases form <;> rfl
  | group p form => cases form <;> rfl
  | _ => rfl

theorem functionRootsByField_eq (body : Place)
    : functionRootsByField body = .ok (functionRoots body) := by
  obtain ⟨a, n⟩ := body
  unfold functionRootsByField functionRoots
  simp only [isJsxByForm_eq, isReturn_eq]
  cases n with
  | leaf p form => cases form <;> rfl
  | wrap p form => cases form <;> rfl
  | group p form parts => 
      cases form with
      | blockStatement =>
          let statements := Place.slots ⟨a, .group p .blockStatement parts⟩
          change (match statements.find? (·.node.isReturn) with
              | some statement => statement.readPart "argument" >>= returnedRootsByField
              | none => .ok [])
            = .ok (match statements.find? (·.node.isReturn) with
              | some statement => returnedRoots (statement.part 0)
              | none => [])
          cases found : statements.find? (·.node.isReturn) with
          | none => rfl
          | some statement =>
              have isReturn := List.find?_some (p := fun s : Place => s.node.isReturn) found
              simp only [Place.readPart_of_isReturn isReturn]
              exact returnedRootsByField_eq _
      | _ => rfl
  | _ => rfl

theorem isMethodByField_eq (member : Node) (name : String)
    : (if member.typeName = "MethodDefinition" then do
          return (← member.readText "name") == name
        else return false : Except Missing Bool)
      = pure (member.isMethod name) := by
  cases member with
  | leaf p form => cases form <;> rfl
  | wrap p form => cases form <;> rfl
  | group p form => cases form <;> rfl
  | _ => rfl

theorem methodByField_eq {definition : Place} {p : Position} {name : Option String}
    {parts : List Node} (isClass : definition.node = .group p (.classDeclaration name) parts)
    : methodByField definition renderMethod = .ok (renderOf? definition) := by
  obtain ⟨a, n⟩ := definition
  subst isClass
  unfold methodByField
  simp only [isMethodByField_eq, List.findM?_pure]
  rfl

/-- What a return gives, if it is JSX. -/
def returnedJsx? (p : Place) : Option Place :=
  if p.node.isReturn && (p.part 0).node.isJsx then some (p.part 0) else none

theorem returnedJsxByField_eq (p : Place) : returnedJsxByField p = .ok (returnedJsx? p) := by
  unfold returnedJsxByField returnedJsx?
  simp only [isJsxByForm_eq]
  by_cases isReturn : p.node.isReturn = true
  · rw [if_pos (beq_iff_eq.mp ((isReturn_eq _).trans isReturn)), Place.readPart_of_isReturn isReturn,
      isReturn, Bool.true_and]
    rfl
  · rw [if_neg (fun same => isReturn ((isReturn_eq _).symm.trans (beq_iff_eq.mpr same))),
      Bool.eq_false_iff.mpr isReturn, Bool.false_and]
    rfl

theorem filterMap_returnedJsx? (body : Place)
    : body.walk.filterMap returnedJsx? = returnedInside body := by
  unfold returnedInside
  induction body.walk with
  | nil => rfl
  | cons p rest ih =>
      rw [List.filterMap_cons, ih, returnedJsx?]
      cases isReturn : p.node.isReturn <;> cases jsx : (p.part 0).node.isJsx <;> simp [isReturn, jsx]

theorem renderRootsByField_eq {definition : Place} {p : Position} {name : Option String}
    {parts : List Node} (isClass : definition.node = .group p (.classDeclaration name) parts)
    : renderRootsByField definition = .ok (renderRoots definition) := by
  unfold renderRootsByField renderRoots
  rw [methodByField_eq isClass]
  cases found : renderOf? definition with
  | none => rfl
  | some method =>
      have isMethod : method.node.isMethod renderMethod = true := by
        rw [renderOf?, isClass] at found
        exact List.find?_some (p := fun m : Place => m.node.isMethod renderMethod) found
      change (method.readPart "body" >>= _) = _
      rw [Place.readPart_of_isMethod isMethod]
      change (if (method.part 0).node.isSyntax = true then _ else _)
        = Except.ok (if (method.part 0).node.isSyntax = true then _ else _)
      by_cases syntactic : (method.part 0).node.isSyntax = true
      · have walked : walkByField [method.part 0] = .ok (method.part 0).walk :=
          walkByField_eq (List.forall_mem_singleton.mpr syntactic)
        have returned
            : (method.part 0).walk.mapM returnedJsxByField
              = .ok ((method.part 0).walk.map returnedJsx?) := by
          rw [funext returnedJsxByField_eq]
          exact List.mapM_pure
        rw [if_pos syntactic, if_pos syntactic, walked]
        change ((method.part 0).walk.mapM returnedJsxByField >>= _) = _
        rw [returned, ← filterMap_returnedJsx?]
        change Except.ok (((method.part 0).walk.map returnedJsx?).filterMap id) = _
        rw [List.filterMap_map, Function.id_comp]
      · rw [if_neg syntactic, if_neg syntactic]
        rfl

-----------------------------------------------------------------------------------------
-- Components
-----------------------------------------------------------------------------------------

/-- The component that a node defines, read field by field. -/
def componentAtByField (p : Place) : Except Missing (Option Component) := do
  if p.node.typeName = "FunctionDeclaration" then
    let name := (← p.node.readText? "name").getD ""
    if name = "" then
      return none
    else
      let roots ← functionRootsByField (← p.readPart "body")
      return some ⟨name, .functionStyle, ← p.node.readNumber "line", roots⟩
  else if p.node.typeName = "VariableDeclarator" then
    let binding ← p.readPart "id"
    if binding.node.typeName = "Identifier" then
      let name ← binding.node.readText "name"
      if name = "" then
        return none
      else
        let init ← p.readPart "init"
        if init.node.typeName = "ArrowFunction" then
          let roots ← functionRootsByField (← init.readPart "body")
          return some ⟨name, .arrowStyle, ← p.node.readNumber "line", roots⟩
        else return none
    else return none
  else if p.node.typeName = "ClassDeclaration" then
    match ← methodByField p renderMethod with
    | none => return none
    | some _ =>
        let name := (← p.node.readText? "name").getD ""
        let roots ← renderRootsByField p
        return some ⟨name, .classStyle, ← p.node.readNumber "line", roots⟩
  else return none

/-- The components of a program, read field by field. -/
def componentsByField (p : Program) : Except Missing (List Component) := do
  let places ← walkByField [p.toPlace]
  let found ← places.mapM componentAtByField
  return found.reduceOption.filter (!·.roots.isEmpty)

/-- The components to annotate in a file, read field by field. -/
def discoverByField (p : Program) (path : Option String) (packages : List String)
    : Except Missing (List Component) :=
  if isKnownIncompatible (some (path.getD p.filename)) packages then .ok []
  else componentsByField p

/-- A name makes a component of a body unless it is empty. -/
theorem componentOfName_eq (name : String) (kind : ComponentKind) (line : Nat) (body : Place)
    : (if name = "" then Except.ok none else do
        let roots ← functionRootsByField body
        return some ⟨name, kind, line, roots⟩)
      = .ok (if name = "" then none else some (Component.mk name kind line (functionRoots body))) := by
  by_cases empty : name = ""
  · rw [if_pos empty, if_pos empty]
  · rw [if_neg empty, if_neg empty, functionRootsByField_eq]
    rfl

theorem componentAtByField_eq (p : Place) : componentAtByField p = .ok (componentAt? p) := by
  obtain ⟨a, n⟩ := p
  cases n with
  | leaf position form => cases form <;> rfl
  | wrap position form body =>
      cases form with
      | functionDeclaration name =>
          let p : Place := ⟨a, .wrap position (.functionDeclaration name) body⟩
          cases name with
          | none => rfl
          | some name => exact componentOfName_eq name .functionStyle position.line (p.part 0)
      | _ => rfl
  | declarator position binding init =>
      let p : Place := ⟨a, .declarator position binding init⟩
      cases binding with
      | leaf place form =>
          cases form with
          | identifier name =>
              have other {e : Except Missing (Option Component)} (nothing : e = .ok none)
                  : (if name = "" then .ok none else e) = .ok none := by
                rw [nothing, ite_self]
              cases init with
              | wrap inner form body =>
                  cases form with
                  | arrowFunction =>
                      exact componentOfName_eq name .arrowStyle position.line ((p.part 1).part 0)
                  | _ => exact other rfl
              | leaf inner form => cases form <;> exact other rfl
              | group inner form => cases form <;> exact other rfl
              | _ => exact other rfl
          | _ => rfl
      | wrap place form => cases form <;> rfl
      | group place form => cases form <;> rfl
      | _ => rfl
  | group position form parts =>
      cases form with
      | classDeclaration name =>
          let p : Place := ⟨a, .group position (.classDeclaration name) parts⟩
          change (methodByField p renderMethod >>= _) = Except.ok ((renderOf? p).map _)
          rw [methodByField_eq rfl]
          cases renderOf? p with
          | none => rfl
          | some method =>
              change (renderRootsByField p >>= _) = _
              rw [renderRootsByField_eq rfl]
              rfl
      | _ => rfl
  | _ => rfl

theorem componentsByField_eq (p : Program) : componentsByField p = .ok (components p) := by
  have walked : walkByField [p.toPlace] = .ok p.walk :=
    walkByField_eq (List.forall_mem_singleton.mpr rfl)
  have found : p.walk.mapM componentAtByField = .ok (p.walk.map componentAt?) := by
    rw [funext componentAtByField_eq]
    exact List.mapM_pure
  rw [componentsByField, walked]
  change (p.walk.mapM componentAtByField >>= _) = _
  rw [found, components, definitions]
  change Except.ok (((p.walk.map componentAt?).filterMap id).filter _) = _
  rw [List.filterMap_map, Function.id_comp]

/-- No tree stops the discovery of its components. -/
theorem discoverByField_eq (p : Program) (path : Option String) (packages : List String)
    : discoverByField p path packages = .ok (discover p path packages) := by
  unfold discoverByField discover
  split
  · rfl
  · exact componentsByField_eq p

end JsxProvenance
