import JsxProvenance.Proofs.Discovery
import JsxProvenance.Proofs.Tree.Region

/-! Where the roots of components stand. A root is the body of a function, what a return gives, or a
branch of a conditional that a return gives, so it never stands under JSX. The definition of a
function or an arrow can be found again from each of its roots, so two of them share no root; a
class shares roots only with the functions inside its render method.
-/

namespace JsxProvenance

open Ast

-----------------------------------------------------------------------------------------
-- Places of a program
-----------------------------------------------------------------------------------------

namespace Ast

theorem Node.isSyntax_of_isJsx {n : Node} (jsx : n.isJsx = true) : n.isSyntax = true := by
  cases n with
  | absent | plain => cases jsx
  | _ => rfl

namespace Program

variable {p : Program}

theorem Has.walk {place found : Place} (has : p.Has place) (visited : found ∈ place.walk)
    : p.Has found :=
  Place.get?_of_mem_walk has visited

theorem has_of_mem_walk {place : Place} (visited : place ∈ p.walk) : p.Has place :=
  have root : p.Has p.toPlace := rfl
  root.walk visited

theorem Has.step {place : Place} (has : p.Has place) {s : Step} {n : Node}
    (stepped : place.node.step? s = some n)
    : p.Has ⟨place.address ++ [s], n⟩ := by
  have there : p.toNode.get? place.address = some place.node := has
  rw [Has, get?, Node.get?_append, there, Option.bind_some, Node.get?, stepped]
  rfl

theorem Has.part {place : Place} (has : p.Has place) {i : Nat}
    (syntactic : (place.part i).node.isSyntax = true)
    : p.Has (place.part i) := by
  cases found : place.node.step? (.part i) with
  | none =>
      rw [Place.part, found] at syntactic
      cases syntactic
  | some n =>
      have there := has.step found
      rwa [Place.part, found]

/-- A slot of a place stands one step below it. -/
theorem Has.slot {place slot : Place} (has : p.Has place) (member : slot ∈ place.slots)
    : p.Has slot ∧ slot.address.dropLast = place.address := by
  obtain ⟨⟨s, n⟩, found, rfl⟩ := List.mem_map.mp member
  exact ⟨has.step (Node.mem_slots_iff.mp found), List.dropLast_concat⟩

/-- JSX that stands in a program under no other JSX. -/
structure Stands (p : Program) (root : Place) : Prop where
  has : p.Has root
  jsx : root.node.isJsx = true
  detached : p.Detached root.address

theorem Has.stands {place : Place} (has : p.Has place) (plain : place.node.isJsx = false) {i : Nat}
    (jsx : (place.part i).node.isJsx = true)
    : p.Stands (place.part i) where
  has := has.part (Node.isSyntax_of_isJsx jsx)
  jsx := jsx
  detached := ⟨place.address, .part i, place.node, rfl, has, plain⟩

end Program
end Ast

-----------------------------------------------------------------------------------------
-- Roots in the body of a function
-----------------------------------------------------------------------------------------

/-- How a root hangs in the body of a function. -/
inductive FunctionRoot (body : Place) : Place → Prop
  | concise (jsx : body.node.isJsx = true) : FunctionRoot body body
  | returned {position : Position} {parts : List Node} {statement : Place}
    (block : body.node = .group position .blockStatement parts) (member : statement ∈ body.slots)
    (returns : statement.node.isReturn = true) (jsx : (statement.part 0).node.isJsx = true)
    : FunctionRoot body (statement.part 0)
  | branch {position position' : Position} {parts : List Node} {statement : Place}
    {test consequent alternate : Node} {i : Nat}
    (block : body.node = .group position .blockStatement parts) (member : statement ∈ body.slots)
    (returns : statement.node.isReturn = true)
    (chosen : (statement.part 0).node = .conditional position' test consequent alternate)
    (jsx : ((statement.part 0).part i).node.isJsx = true)
    : FunctionRoot body ((statement.part 0).part i)

theorem mem_returnedRoots {argument root : Place} (member : root ∈ returnedRoots argument)
    : root = argument ∧ argument.node.isJsx = true
      ∨ ∃ position test consequent alternate i,
          argument.node = .conditional position test consequent alternate
          ∧ root = argument.part i
          ∧ root.node.isJsx = true := by
  unfold returnedRoots at member
  split at member
  · next position test consequent alternate form =>
      obtain ⟨branch, jsx⟩ := List.mem_filter.mp member
      rcases List.mem_cons.mp branch with rfl | branch
      · exact Or.inr ⟨_, _, _, _, 1, form, rfl, jsx⟩
      · exact Or.inr ⟨_, _, _, _, 2, form, List.mem_singleton.mp branch, jsx⟩
  · split at member
    · next jsx => exact Or.inl ⟨List.mem_singleton.mp member, jsx⟩
    · cases member

theorem mem_functionRoots {body root : Place} (member : root ∈ functionRoots body)
    : FunctionRoot body root := by
  unfold functionRoots at member
  split at member
  · next jsx =>
      obtain rfl := List.mem_singleton.mp member
      exact .concise jsx
  · split at member
    · next block =>
        split at member
        · next statement found =>
            have inside := List.mem_of_find?_eq_some found
            have returns := List.find?_some found
            rcases mem_returnedRoots member with
              ⟨rfl, jsx⟩ | ⟨position, test, consequent, alternate, i, chosen, rfl, jsx⟩
            · exact .returned block inside returns jsx
            · exact .branch block inside returns chosen jsx
        · cases member
    · cases member

theorem nodup_functionRoots (body : Place) : ((functionRoots body).map (·.address)).Nodup := by
  have returned (argument : Place) : ((returnedRoots argument).map (·.address)).Nodup := by
    unfold returnedRoots
    split
    · refine List.Nodup.sublist (List.Sublist.map _ List.filter_sublist) ?_
      simp [Place.part]
    · split <;> simp
  unfold functionRoots
  split
  · simp
  · split
    · split
      · exact returned _
      · exact .nil
    · exact .nil

/-- A named function or an arrow. -/
def Ast.Node.isFunction : Node → Bool
  | .wrap _ (.functionDeclaration _) _ => true
  | .wrap _ .arrowFunction _ => true
  | _ => false

/-- The address of the body of the function that renders a root, read off the node above it. -/
def Ast.Program.bodyOf (p : Program) (root : Address) : Address :=
  match p.get? root.dropLast with
  | some (.wrap _ .returnStatement _) => root.dropLast.dropLast
  | some (.conditional ..) => root.dropLast.dropLast.dropLast
  | _ => root

namespace FunctionRoot

variable {p : Program} {function root : Place}

theorem dropLast_part (place : Place) (i : Nat) : (place.part i).address.dropLast = place.address :=
  List.dropLast_concat

theorem isJsx_of_isReturn {n : Node} (returns : n.isReturn = true) : n.isJsx = false := by
  cases n with
  | wrap => rfl
  | _ => cases returns

theorem isJsx_of_isFunction {n : Node} (renders : n.isFunction = true) : n.isJsx = false := by
  cases n with
  | wrap => rfl
  | _ => cases renders

theorem has_body (has : p.Has function) (renders : function.node.isFunction = true)
    : p.Has (function.part 0) := by
  obtain ⟨a, n⟩ := function
  cases n with
  | wrap q form body => exact has.step (s := .part 0) rfl
  | _ => cases renders

theorem has_argument {statement : Place} (has : p.Has statement) {position : Position}
    {test consequent alternate : Node}
    (chosen : (statement.part 0).node = .conditional position test consequent alternate)
    : p.Has (statement.part 0) :=
  has.part (by rw [chosen]; rfl)

theorem stands (hangs : FunctionRoot (function.part 0) root) (has : p.Has function)
    (renders : function.node.isFunction = true)
    : p.Stands root := by
  cases hangs with
  | concise jsx => exact has.stands (isJsx_of_isFunction renders) jsx
  | returned block member returns jsx =>
      exact ((has_body has renders).slot member).1.stands (isJsx_of_isReturn returns) jsx
  | branch block member returns chosen jsx =>
      have argument := has_argument ((has_body has renders).slot member).1 chosen
      exact argument.stands (by rw [chosen]; rfl) jsx

/-- The body of a function is found again from each of its roots, by cases on what stands above
the root.
-/
theorem bodyOf_eq (hangs : FunctionRoot (function.part 0) root) (has : p.Has function)
    (renders : function.node.isFunction = true)
    : p.bodyOf root.address = (function.part 0).address := by
  cases hangs with
  | concise jsx =>
      have above : p.get? function.address = some function.node := has
      rw [Program.bodyOf, dropLast_part, above]
      cases form : function.node with
      | wrap q wrapper body =>
          rw [form] at renders
          cases wrapper with
          | functionDeclaration | arrowFunction => rfl
          | _ => cases renders
      | conditional =>
          rw [form] at renders
          cases renders
      | _ => rfl
  | @returned _ _ statement block member returns jsx =>
      obtain ⟨above, placed⟩ := (has_body has renders).slot member
      have above : p.get? statement.address = some statement.node := above
      rw [Program.bodyOf, dropLast_part, above]
      cases form : statement.node with
      | wrap q wrapper argument =>
          rw [form] at returns
          cases wrapper with
          | returnStatement => exact placed
          | _ => cases returns
      | _ =>
          rw [form] at returns
          cases returns
  | @branch _ _ _ statement _ _ _ i block member returns chosen jsx =>
      obtain ⟨inside, placed⟩ := (has_body has renders).slot member
      have above : p.get? (statement.part 0).address = some (statement.part 0).node :=
        has_argument inside chosen
      rw [Program.bodyOf, dropLast_part, above, chosen]
      simpa only [dropLast_part] using placed

end FunctionRoot

-----------------------------------------------------------------------------------------
-- Roots in a render method
-----------------------------------------------------------------------------------------

theorem mem_renderRoots {definition root : Place} (member : root ∈ renderRoots definition)
    : ∃ method statement,
        renderOf? definition = some method
        ∧ (method.part 0).node.isSyntax = true
        ∧ statement ∈ (method.part 0).walk
        ∧ statement.node.isReturn = true
        ∧ root = statement.part 0
        ∧ root.node.isJsx = true := by
  unfold renderRoots at member
  split at member
  · next method render =>
      split at member
      · next syntactic =>
          obtain ⟨given, jsx⟩ := List.mem_filter.mp member
          obtain ⟨statement, inside, rfl⟩ := List.mem_map.mp given
          obtain ⟨visited, returns⟩ := List.mem_filter.mp inside
          exact ⟨method, statement, render, syntactic, visited, returns, rfl, jsx⟩
      · cases member
  · cases member

theorem nodup_renderRoots (definition : Place)
    : ((renderRoots definition).map (·.address)).Nodup := by
  have returned (body : Place) : ((returnedInside body).map (·.address)).Nodup := by
    refine List.Nodup.sublist (List.Sublist.map _ List.filter_sublist) ?_
    have visited : ((body.walk.filter (·.node.isReturn)).map (·.address)).Nodup :=
      body.nodup_walk.sublist (List.Sublist.map _ List.filter_sublist)
    rw [List.map_map]
    have longer : Function.Injective fun a : Address => a ++ [Step.part 0] :=
      fun _ _ same => List.append_cancel_right same
    have moved := visited.map longer
    rwa [List.map_map] at moved
  unfold renderRoots
  split
  · split
    · exact returned _
    · exact .nil
  · exact .nil

/-- The render method of a class is a place of the program and a method. -/
theorem renderOf?_spec {p : Program} {definition method : Place} (has : p.Has definition)
    (render : renderOf? definition = some method)
    : p.Has method ∧ method.node.isMethod renderMethod = true := by
  unfold renderOf? at render
  split at render
  · have named := List.find?_some render
    exact ⟨(has.slot (List.mem_of_find?_eq_some render)).1, named⟩
  · cases render

theorem isReturn_of_isFunction {n : Node} (renders : n.isFunction = true) : n.isReturn = false := by
  cases n with
  | wrap q form body =>
      cases form with
      | returnStatement => cases renders
      | _ => rfl
  | _ => rfl

theorem isMethod_of_isFunction {n : Node} (renders : n.isFunction = true) (name : String)
    : n.isMethod name = false := by
  cases n with
  | wrap q form body =>
      cases form with
      | methodDefinition => cases renders
      | _ => rfl
  | _ => rfl

/-- What stands below the body of a method stands below it still one step further up, unless the node
there is the method.
-/
theorem prefix_of_prefix_concat {p : Program} {method place : Place} (hasMethod : p.Has method)
    (has : p.Has place) {name : String} (named : method.node.isMethod name = true)
    (plain : place.node.isMethod name = false) {s : Step}
    (inside : (method.part 0).address <+: place.address ++ [s])
    : (method.part 0).address <+: place.address := by
  rcases List.prefix_concat_iff.mp inside with same | inside
  · obtain rfl := hasMethod.unique has (List.append_inj' same rfl).1
    rw [plain] at named
    cases named
  · exact inside

/-- A function that has a root of a render method stands inside the method, by cases on how the root
hangs in the function: the return above it is the same for both.
-/
theorem FunctionRoot.inside_method {p : Program} {function method statement root : Place}
    (hangs : FunctionRoot (function.part 0) root) (has : p.Has function)
    (renders : function.node.isFunction = true) (hasMethod : p.Has method)
    (named : method.node.isMethod renderMethod = true)
    (syntactic : (method.part 0).node.isSyntax = true)
    (visited : statement ∈ (method.part 0).walk) (returned : statement.node.isReturn = true)
    (same : root.address = (statement.part 0).address)
    : (method.part 0).address <+: function.address := by
  have there : p.Has statement := (hasMethod.part syntactic).walk visited
  have above : root.address.dropLast = statement.address := by
    rw [same, dropLast_part]
  cases hangs with
  | concise jsx =>
      obtain rfl := has.unique there ((dropLast_part function 0).symm.trans above)
      rw [isReturn_of_isFunction renders] at returned
      cases returned
  | @returned position parts statement' block member returns jsx =>
      have body := has_body has renders
      obtain rfl :=
        (body.slot member).1.unique there ((dropLast_part statement' 0).symm.trans above)
      obtain ⟨⟨s, n⟩, _, rfl⟩ := List.mem_map.mp member
      have inBody := prefix_of_prefix_concat hasMethod body named (by rw [block]; rfl)
        (Place.prefix_of_mem_walk visited)
      exact prefix_of_prefix_concat hasMethod has named (isMethod_of_isFunction renders _) inBody
  | @branch _ _ _ statement' _ _ _ i block member returns chosen jsx =>
      have argument := has_argument ((has_body has renders).slot member).1 chosen
      obtain rfl := argument.unique there ((dropLast_part (statement'.part 0) i).symm.trans above)
      rw [chosen] at returned
      cases returned

-----------------------------------------------------------------------------------------
-- Definitions and their roots
-----------------------------------------------------------------------------------------

/-- How a place defines a component. -/
inductive Defines (definition : Place) (component : Component) : Prop
  | function {position : Position} {name : Option String} {body : Node}
    (form : definition.node = .wrap position (.functionDeclaration name) body)
    (kind : component.kind = .functionStyle)
    (roots : component.roots = functionRoots (definition.part 0))
  | arrow {position position' : Position} {binding body : Node}
    (form : definition.node = .declarator position binding (.wrap position' .arrowFunction body))
    (kind : component.kind = .arrowStyle)
    (roots : component.roots = functionRoots ((definition.part 1).part 0))
  | render {method : Place} (found : renderOf? definition = some method)
    (kind : component.kind = .classStyle) (roots : component.roots = renderRoots definition)

/-- A component is defined in one of the three ways, by cases on the forms that define one. -/
theorem defines_of_componentAt? {definition : Place} {component : Component}
    (defined : componentAt? definition = some component)
    : Defines definition component := by
  unfold componentAt? at defined
  split at defined
  · next form =>
      split at defined
      · cases defined
      · obtain rfl := Option.some.inj defined
        exact .function form rfl rfl
  · next form =>
      split at defined
      · cases defined
      · obtain rfl := Option.some.inj defined
        exact .arrow form rfl rfl
  · next form =>
      obtain ⟨method, found, rfl⟩ := Option.map_eq_some_iff.mp defined
      exact .render found rfl rfl
  · cases defined

/-- The address of the function or arrow that defines the component of a root. -/
def Ast.Program.definitionOf (p : Program) (root : Address) : Address :=
  match p.get? (p.bodyOf root).dropLast with
  | some (.wrap _ .arrowFunction _) => (p.bodyOf root).dropLast.dropLast
  | _ => (p.bodyOf root).dropLast

namespace Defines

variable {p : Program} {definition root : Place} {component : Component}

theorem has_arrow (has : p.Has definition) {position position' : Position} {binding body : Node}
    (form : definition.node = .declarator position binding (.wrap position' .arrowFunction body))
    : p.Has (definition.part 1) ∧ (definition.part 1).node = .wrap position' .arrowFunction body := by
  obtain ⟨a, n⟩ := definition
  cases form
  exact ⟨has.step (s := .part 1) rfl, rfl⟩

/-- A root of a component is JSX of the program that stands under no other JSX. -/
theorem stands (defines : Defines definition component) (has : p.Has definition)
    (member : root ∈ component.roots)
    : p.Stands root := by
  cases defines with
  | function form kind roots =>
      rw [roots] at member
      exact (mem_functionRoots member).stands has (by rw [form]; rfl)
  | arrow form kind roots =>
      rw [roots] at member
      obtain ⟨arrow, form⟩ := has_arrow has form
      exact (mem_functionRoots member).stands arrow (by rw [form]; rfl)
  | render found kind roots =>
      rw [roots] at member
      obtain ⟨method, statement, render, syntactic, visited, returns, rfl, jsx⟩ :=
        mem_renderRoots member
      have body := (renderOf?_spec has render).1.part syntactic
      exact (body.walk visited).stands (FunctionRoot.isJsx_of_isReturn returns) jsx

theorem nodup_roots (defines : Defines definition component)
    : (component.roots.map (·.address)).Nodup := by
  cases defines with
  | function form kind roots => exact roots ▸ nodup_functionRoots _
  | arrow form kind roots => exact roots ▸ nodup_functionRoots _
  | render found kind roots => exact roots ▸ nodup_renderRoots _

/-- The definition of a function or an arrow is found again from each of its roots. -/
theorem definitionOf_eq (defines : Defines definition component) (has : p.Has definition)
    (style : component.kind ≠ .classStyle) (member : root ∈ component.roots)
    : p.definitionOf root.address = definition.address := by
  cases defines with
  | function form kind roots =>
      rw [roots] at member
      have body := (mem_functionRoots member).bodyOf_eq has (by rw [form]; rfl)
      have above : p.get? definition.address = some definition.node := has
      rw [Program.definitionOf, body, FunctionRoot.dropLast_part, above, form]
  | arrow form kind roots =>
      rw [roots] at member
      obtain ⟨arrow, form⟩ := has_arrow has form
      have body := (mem_functionRoots member).bodyOf_eq arrow (by rw [form]; rfl)
      have above : p.get? (definition.part 1).address = some (definition.part 1).node := arrow
      rw [Program.definitionOf, body, FunctionRoot.dropLast_part, above, form]
      exact FunctionRoot.dropLast_part definition 1
  | render found kind roots => exact absurd kind style

/-- A function or an arrow that shares a root with a class stands inside the render method of it. -/
theorem inside_render {other root' : Place} {shared : Component}
    (defines : Defines definition component) (has : p.Has definition)
    (style : component.kind ≠ .classStyle) (defines' : Defines other shared) (has' : p.Has other)
    (style' : shared.kind = .classStyle) (member : root ∈ component.roots)
    (member' : root' ∈ shared.roots) (same : root.address = root'.address)
    : ∃ method, renderOf? other = some method ∧ method.address <+: definition.address := by
  cases defines' with
  | function form kind roots | arrow form kind roots => rw [style'] at kind; cases kind
  | render found kind roots =>
      rw [roots] at member'
      obtain ⟨method, statement, render, syntactic, visited, returned, rfl, jsx⟩ :=
        mem_renderRoots member'
      obtain ⟨hasMethod, named⟩ := renderOf?_spec has' render
      refine ⟨method, render, (List.prefix_append method.address [.part 0]).trans ?_⟩
      cases defines with
      | function form kind roots =>
          rw [roots] at member
          exact (mem_functionRoots member).inside_method has (by rw [form]; rfl) hasMethod named
            syntactic visited returned same
      | arrow form kind roots =>
          rw [roots] at member
          obtain ⟨arrow, form⟩ := has_arrow has form
          have inside := (mem_functionRoots member).inside_method arrow (by rw [form]; rfl) hasMethod
            named syntactic visited returned same
          rcases List.prefix_concat_iff.mp inside with equal | inside
          · cases (List.append_inj' equal rfl).2
          · exact inside
      | render found kind roots => exact absurd kind style

end Defines

-----------------------------------------------------------------------------------------
-- The components of a program
-----------------------------------------------------------------------------------------

theorem defines_of_mem_components {p : Program} {component : Component}
    (member : component ∈ components p)
    : ∃ definition ∈ p.walk, componentAt? definition = some component :=
  List.mem_filterMap.mp (List.mem_of_mem_filter member)

/-- A root of some component of a program. -/
def Ast.Program.IsRoot (p : Program) (root : Place) : Prop :=
  ∃ component ∈ components p, root ∈ component.roots

/-- A root of a program is JSX that stands under no other JSX. -/
theorem Ast.Program.IsRoot.stands {p : Program} {root : Place} (isRoot : p.IsRoot root)
    : p.Stands root := by
  obtain ⟨component, member, rooted⟩ := isRoot
  obtain ⟨definition, visited, defined⟩ := defines_of_mem_components member
  exact (defines_of_componentAt? defined).stands (Program.has_of_mem_walk visited) rooted

/-- A node is reached from at most one root. -/
theorem Ast.Program.IsRoot.unique {p : Program} {first second left right : Place}
    (isFirst : p.IsRoot first) (isSecond : p.IsRoot second) (toLeft : first.Reaches left)
    (toRight : second.Reaches right) (same : left.address = right.address)
    : first = second :=
  toLeft.unique toRight same isFirst.stands.has isSecond.stands.has isFirst.stands.detached
    isSecond.stands.detached

/-- Two functions or arrows share no root, since their definitions are found again from it. -/
theorem pairwise_roots (p : Program)
    : (components p).Pairwise fun first second =>
        first.kind ≠ .classStyle
        → second.kind ≠ .classStyle
        → ∀ root ∈ first.roots, ∀ other ∈ second.roots, root.address ≠ other.address := by
  refine List.Pairwise.filter _ (List.pairwise_filterMap.mpr ?_)
  have visited := p.toPlace.nodup_walk
  rw [List.Nodup, List.pairwise_map] at visited
  refine visited.imp_of_mem fun {x y} inside inside' different => ?_
  intro first defined second defined' style style' root member other member' same
  have here := (defines_of_componentAt? defined).definitionOf_eq (Program.has_of_mem_walk inside)
    style member
  have there := (defines_of_componentAt? defined').definitionOf_eq (Program.has_of_mem_walk inside')
    style' member'
  exact different (here.symm.trans ((congrArg p.definitionOf same).trans there))

end JsxProvenance
