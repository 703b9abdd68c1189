import Mathlib.Data.List.Forall2
import JsxProvenance.Annotation
import JsxProvenance.Proofs.Tree.Redraw

/-! Discovery, aliases and classification cannot see a drawing of the tree. Names and shape decide
which components there are, where their roots stand, which names stand for a fragment, and what a
node is; attributes, positions and offsets decide nothing.
-/

namespace JsxProvenance

open Ast

-----------------------------------------------------------------------------------------
-- Classification
-----------------------------------------------------------------------------------------

@[simp]
theorem Aliases.isFragmentTag_redraw (a : Aliases) (r : Redraw) (tag : Node)
    : a.isFragmentTag (tag.redraw r) = a.isFragmentTag tag := by
  unfold isFragmentTag
  rw [Node.tagName_redraw]
  cases tag with
  | wrap p form object =>
      cases form with
      | jsxMemberExpression property =>
          cases object with
          | leaf q form => cases form <;> rfl
          | _ => rfl
      | _ => rfl
  | _ => rfl

@[simp]
theorem isFragment_redraw (aliases? : Option Aliases) (r : Redraw) (n : Node)
    : isFragment aliases? (n.redraw r) = isFragment aliases? n := by
  cases n with
  | group p form parts => cases form <;> rfl
  | element p name attrs children sc off => simp [Node.redraw, isFragment]
  | _ => rfl

@[simp]
theorem classify_redraw (aliases? : Option Aliases) (r : Redraw) (n : Node)
    : classify aliases? (n.redraw r) = classify aliases? n := by
  unfold classify
  rw [isFragment_redraw]
  cases n with
  | leaf p form => cases form <;> rfl
  | _ => rfl

-----------------------------------------------------------------------------------------
-- Aliases
-----------------------------------------------------------------------------------------

/-- The second node is a drawing of the first. -/
def Ast.Node.DrawnAs (n drawn : Node) : Prop :=
  ∃ r : Redraw, drawn = n.redraw r

theorem Ast.Node.listRedraw_drawnAs (r : Nat → Redraw) (nodes : List Node)
    : List.Forall₂ DrawnAs nodes (listRedraw r nodes) := by
  induction nodes generalizing r with
  | nil => exact .nil
  | cons n rest ih => exact .cons ⟨r 0, rfl⟩ (ih _)

/-- Reading a list step by step is the same for a drawing of the list if each step is, by
induction over the list.
-/
theorem foldlM_drawnAs {f : Aliases → Node → Except Fault Aliases}
    (same : ∀ a r n, (f a (n.redraw r)).toOption = (f a n).toOption)
    {nodes drawn : List Node} (h : List.Forall₂ Node.DrawnAs nodes drawn) (a : Aliases)
    : (drawn.foldlM f a).toOption = (nodes.foldlM f a).toOption := by
  induction h generalizing a with
  | nil => rfl
  | @cons n n' rest rest' head _ ih =>
      obtain ⟨r, rfl⟩ := head
      have first := same a r n
      rw [List.foldlM_cons, List.foldlM_cons]
      cases hd : f a (n.redraw r) <;> cases ho : f a n <;> rw [hd, ho] at first
      · rfl
      · cases first
      · cases first
      · cases first
        exact ih _

namespace Aliases

theorem bindSpecifier_redraw (a : Aliases) (r : Redraw) (n : Node)
    : (a.bindSpecifier (n.redraw r)).toOption = (a.bindSpecifier n).toOption := by
  cases n with
  | leaf p form => cases form <;> rfl
  | _ => rfl

theorem bindProperty_redraw (a : Aliases) (r : Redraw) (n : Node)
    : (a.bindProperty (n.redraw r)).toOption = (a.bindProperty n).toOption := by
  cases n with
  | leaf p form => cases form <;> rfl
  | _ => rfl

@[simp]
theorem isFragmentValue_redraw (a : Aliases) (r : Redraw) (n : Node)
    : a.isFragmentValue (n.redraw r) = a.isFragmentValue n := by
  cases n with
  | leaf p form => cases form <;> rfl
  | wrap p form object =>
      cases form with
      | memberExpression property =>
          cases object with
          | leaf q form => cases form <;> rfl
          | _ => rfl
      | _ => rfl
  | _ => rfl

@[simp]
theorem isNamespaceValue_redraw (a : Aliases) (r : Redraw) (n : Node)
    : a.isNamespaceValue (n.redraw r) = a.isNamespaceValue n := by
  cases n with
  | leaf p form => cases form <;> rfl
  | _ => rfl

/-- A declarator binds the same names in a drawing, by cases on what it binds. -/
theorem bindDeclarator_redraw (a : Aliases) (r : Redraw) (n : Node)
    : (a.bindDeclarator (n.redraw r)).toOption = (a.bindDeclarator n).toOption := by
  cases n with
  | declarator p binding init =>
      cases binding with
      | leaf q form =>
          cases form with
          | identifier name => simp [Node.redraw, Redraw.leaf, bindDeclarator]
          | _ => rfl
      | group q form properties =>
          cases form with
          | objectPattern =>
              simp only [Node.redraw, bindDeclarator, isNamespaceValue_redraw]
              split
              · exact foldlM_drawnAs bindProperty_redraw (Node.listRedraw_drawnAs _ _) a
              · rfl
          | _ => rfl
      | _ => rfl
  | _ => rfl

theorem bindStatement_redraw (a : Aliases) (r : Redraw) (n : Node)
    : (a.bindStatement (n.redraw r)).toOption = (a.bindStatement n).toOption := by
  cases n with
  | group p form parts =>
      cases form with
      | importDeclaration source =>
          simp only [Node.redraw, bindStatement]
          split
          · exact foldlM_drawnAs bindSpecifier_redraw (Node.listRedraw_drawnAs _ _) a
          · rfl
      | variableDeclaration kind =>
          exact foldlM_drawnAs bindDeclarator_redraw (Node.listRedraw_drawnAs _ _) a
      | _ => rfl
  | _ => rfl

/-- The top-level statements of a drawing are drawings of the statements, by induction over the
body.
-/
theorem topLevelStatements_drawnAs {body drawn : List Node}
    (h : List.Forall₂ Node.DrawnAs body drawn)
    : List.Forall₂ Node.DrawnAs (topLevelStatements body) (topLevelStatements drawn) := by
  induction h with
  | nil => exact .nil
  | @cons n n' rest rest' head _ ih =>
      obtain ⟨r, rfl⟩ := head
      have alone (m : Node) : List.Forall₂ Node.DrawnAs [m] [m.redraw r] := .cons ⟨r, rfl⟩ .nil
      refine List.rel_append ?_ ih
      cases n with
      | group p form parts =>
          cases form with
          | opaqueNode kind =>
              simp only [Node.redraw]
              split
              · exact Node.listRedraw_drawnAs _ parts
              · exact alone (.group p (.opaqueNode kind) parts)
          | _ => exact alone _
      | _ => exact alone _

/-- A drawing of a program has the same aliases, or none as well. -/
theorem collect_redraw (r : Redraw) (p : Program)
    : (collect (p.redraw r)).toOption = (collect p).toOption :=
  foldlM_drawnAs bindStatement_redraw
    (topLevelStatements_drawnAs (Node.listRedraw_drawnAs _ p.body)) {}

end Aliases

-----------------------------------------------------------------------------------------
-- Components
-----------------------------------------------------------------------------------------

/-- The name of a component, its kind, and where its roots stand. -/
def Component.site (c : Component) : String × ComponentKind × List Address :=
  (c.name, c.kind, c.roots.map (·.address))

theorem filter_isJsx_redraw (r : Redraw) (ps : List Place)
    : (ps.map (·.redraw r)).filter (·.node.isJsx)
      = (ps.filter (·.node.isJsx)).map (·.redraw r) := by
  rw [List.filter_map]
  exact congrArg _ (List.filter_congr fun p _ => Node.isJsx_redraw _ p.node)

theorem returnedRoots_redraw (r : Redraw) (argument : Place)
    : returnedRoots (argument.redraw r) = (returnedRoots argument).map (·.redraw r) := by
  have single : (if (argument.redraw r).node.isJsx then [argument.redraw r] else [])
      = (if argument.node.isJsx then [argument] else []).map (·.redraw r) := by
    rw [Place.redraw, Node.isJsx_redraw]
    split <;> rfl
  obtain ⟨a, n⟩ := argument
  cases n with
  | conditional p test consequent alternate =>
      have parts := filter_isJsx_redraw r
        [Place.part ⟨a, .conditional p test consequent alternate⟩ 1,
          Place.part ⟨a, .conditional p test consequent alternate⟩ 2]
      rw [List.map_cons, List.map_cons, List.map_nil, ← Place.part_redraw, ← Place.part_redraw]
        at parts
      exact parts
  | _ => exact single

theorem find?_slots_redraw {test : Node → Bool} (blind : ∀ r n, test (n.redraw r) = test n)
    (r : Redraw) (a : Address) (p : Position) (form : Group) (parts : List Node)
    : (Place.redraw r ⟨a, .group p form parts⟩).slots.find? (test ·.node)
      = ((Place.slots ⟨a, .group p form parts⟩).find? (test ·.node)).map (·.redraw r) := by
  rw [Place.slots_redraw_group, List.find?_map]
  exact congrArg (Option.map _) (congrArg (List.find? · _) (funext fun q => blind _ q.node))

theorem functionRoots_redraw (r : Redraw) (body : Place)
    : functionRoots (body.redraw r) = (functionRoots body).map (·.redraw r) := by
  unfold functionRoots
  rw [show (body.redraw r).node.isJsx = body.node.isJsx from Node.isJsx_redraw _ _]
  split
  · rfl
  · obtain ⟨a, n⟩ := body
    cases n with
    | group p form parts =>
        cases form with
        | blockStatement =>
            have found := find?_slots_redraw Node.isReturn_redraw r a p .blockStatement parts
            simp only [Place.redraw, Node.redraw] at found ⊢
            rw [found]
            cases (Place.slots ⟨a, .group p .blockStatement parts⟩).find? (·.node.isReturn) with
            | none => rfl
            | some statement =>
                simp only [Option.map_some]
                exact Place.part_redraw r statement 0 ▸ returnedRoots_redraw r _
        | _ => rfl
    | _ => rfl

theorem renderOf?_redraw (r : Redraw) (definition : Place)
    : renderOf? (definition.redraw r) = (renderOf? definition).map (·.redraw r) := by
  obtain ⟨a, n⟩ := definition
  cases n with
  | group p form parts =>
      cases form with
      | classDeclaration name =>
          exact find?_slots_redraw (fun r n => Node.isMethod_redraw r renderMethod n) r a p _ parts
      | _ => rfl
  | _ => rfl

/-- The JSX that one place returns. -/
def returnedBy (p : Place) : List Place :=
  if p.node.isReturn && (p.part 0).node.isJsx then [p.part 0] else []

/-- The JSX that the returns inside a place give is gathered return by return. -/
theorem returnedInside_eq_flatMap (body : Place)
    : returnedInside body = body.walk.flatMap returnedBy := by
  have gathered (ps : List Place)
      : ((ps.filter (·.node.isReturn)).map (·.part 0)).filter (·.node.isJsx)
        = ps.flatMap returnedBy := by
    induction ps with
    | nil => rfl
    | cons p rest ih =>
        rw [List.flatMap_cons, ← ih, returnedBy]
        cases hr : p.node.isReturn <;> cases hj : (p.part 0).node.isJsx <;> simp [hr, hj]
  exact gathered body.walk

/-- The JSX that the returns inside a drawing give. Gained attributes are no returns. -/
theorem returnedInside_redraw (r : Redraw) (body : Place)
    : returnedInside (body.redraw r) = (returnedInside body).map (·.redraw r) := by
  have blind (p : Place) (mark : p.node.isMark = true) : returnedBy p = [] := by
    obtain ⟨a, n⟩ := p
    obtain ⟨q, form, rfl⟩ := Node.exists_leaf_of_isMark mark
    rfl
  have drawn (p : Place) : returnedBy (p.redraw r) = (returnedBy p).map (·.redraw r) := by
    rw [returnedBy, returnedBy, Place.part_redraw]
    simp only [Place.redraw, Node.isReturn_redraw, Node.isJsx_redraw]
    split <;> rfl
  simp only [returnedInside_eq_flatMap, Place.flatMap_walk_redraw r body returnedBy blind, drawn,
    List.map_flatMap]

theorem renderRoots_redraw (r : Redraw) (definition : Place)
    : renderRoots (definition.redraw r) = (renderRoots definition).map (·.redraw r) := by
  unfold renderRoots
  rw [renderOf?_redraw]
  cases renderOf? definition with
  | none => rfl
  | some method =>
      simp only [Option.map_some, Place.part_redraw, returnedInside_redraw]
      rw [show ((method.part 0).redraw r).node.isSyntax = (method.part 0).node.isSyntax
        from Node.isSyntax_redraw _ _]
      split <;> rfl

/-- A component whose definition is drawn anew, on the line where the definition then stands. -/
def Component.redraw (r : Redraw) (line : Nat) (c : Component) : Component :=
  { c with line, roots := c.roots.map (·.redraw r) }

@[simp]
theorem Component.site_redraw (r : Redraw) (line : Nat) (c : Component)
    : (c.redraw r line).site = c.site := by
  simp only [site, redraw, List.map_map]
  rfl

/-- A drawing of a node defines the component drawn anew, or none as well, by cases on the three
ways to define one.
-/
theorem componentAt?_redraw_eq (r : Redraw) (p : Place)
    : componentAt? (p.redraw r)
      = (componentAt? p).map (·.redraw r (r.position p.node.position).line) := by
  obtain ⟨a, n⟩ := p
  cases n with
  | wrap p form body =>
      cases form with
      | functionDeclaration name =>
          cases name with
          | none => rfl
          | some name =>
              have roots := functionRoots_redraw r
                (Place.part ⟨a, .wrap p (.functionDeclaration (some name)) body⟩ 0)
              rw [← Place.part_redraw] at roots
              simp only [componentAt?, Place.redraw, Node.redraw] at roots ⊢
              rw [roots]
              split <;> rfl
      | _ => rfl
  | declarator p binding init =>
      have roots := functionRoots_redraw r
        ((Place.part ⟨a, .declarator p binding init⟩ 1).part 0)
      rw [← Place.part_redraw, ← Place.part_redraw] at roots
      cases binding with
      | leaf q form =>
          cases form with
          | identifier name =>
              cases init with
              | wrap q form body =>
                  cases form with
                  | arrowFunction =>
                      simp only [componentAt?, Place.redraw, Node.redraw, Redraw.leaf] at roots ⊢
                      rw [roots]
                      split <;> rfl
                  | _ => rfl
              | _ => rfl
          | _ => rfl
      | _ => rfl
  | group p form members =>
      cases form with
      | classDeclaration name =>
          have render := renderOf?_redraw r ⟨a, .group p (.classDeclaration name) members⟩
          have roots := renderRoots_redraw r ⟨a, .group p (.classDeclaration name) members⟩
          simp only [componentAt?, Place.redraw, Node.redraw] at render roots ⊢
          rw [render, roots]
          cases renderOf? ⟨a, .group p (.classDeclaration name) members⟩ <;> rfl
      | _ => rfl
  | _ => rfl

/-- A drawing of a node defines a component at the same site, or none as well. -/
theorem componentAt?_redraw (r : Redraw) (p : Place)
    : (componentAt? (p.redraw r)).map Component.site = (componentAt? p).map Component.site := by
  rw [componentAt?_redraw_eq, Option.map_map]
  exact congrArg (Option.map · _) (funext fun c => c.site_redraw r _)

/-- A component stands on the line of its definition: a drawing that adds nothing puts it there. -/
theorem line_of_componentAt? {p : Place} {c : Component} (defined : componentAt? p = some c)
    : c.line = p.node.position.line := by
  have still : p.redraw (.adding fun _ => []) = p :=
    congrArg (Place.mk p.address) p.node.redraw_adding_nothing
  have drawn := componentAt?_redraw_eq (.adding fun _ => []) p
  rw [still, defined] at drawn
  exact congrArg Component.line (Option.some.inj drawn)

/-- A definition that is given attributes defines the component with its roots drawn anew. -/
theorem componentAt?_redraw_adding (added : Address → List (String × String)) (p : Place)
    : componentAt? (p.redraw (.adding added))
      = (componentAt? p).map fun c => c.redraw (.adding added) c.line := by
  rw [componentAt?_redraw_eq]
  cases defined : componentAt? p with
  | none => rfl
  | some c => exact congrArg (fun line => some (c.redraw _ line)) (line_of_componentAt? defined).symm

def isRooted (site : String × ComponentKind × List Address) : Bool :=
  !site.2.2.isEmpty

/-- The sites of a program are those of its definitions that have a root. -/
theorem sites_eq (p : Program)
    : (components p).map Component.site
      = (p.walk.flatMap fun q => ((componentAt? q).map Component.site).toList).filter
          isRooted := by
  have kept (cs : List Component)
      : (cs.filter (!·.roots.isEmpty)).map Component.site
        = (cs.map Component.site).filter isRooted := by
    rw [List.filter_map]
    refine congrArg _ (List.filter_congr fun c _ => ?_)
    cases hc : c.roots <;> simp [isRooted, Component.site, hc]
  rw [components, kept, definitions, List.map_filterMap, ← List.filterMap_eq_flatMap_toList]

/-- The components of a drawing have the same sites. Gained attributes define nothing. -/
theorem sites_redraw (r : Redraw) (p : Program)
    : (components (p.redraw r)).map Component.site = (components p).map Component.site := by
  have blind (q : Place) (mark : q.node.isMark = true)
      : ((componentAt? q).map Component.site).toList = [] := by
    obtain ⟨a, n⟩ := q
    obtain ⟨q, form, rfl⟩ := Node.exists_leaf_of_isMark mark
    rfl
  rw [sites_eq, sites_eq, Program.flatMap_walk_redraw r p _ blind]
  simp only [componentAt?_redraw]

/-- A program that is given attributes has the components that it had, with their roots drawn
anew. Gained attributes define nothing.
-/
theorem components_redraw_adding (added : Address → List (String × String)) (p : Program)
    : components (p.redraw (.adding added))
      = (components p).map fun c => c.redraw (.adding added) c.line := by
  have blind (q : Place) (mark : q.node.isMark = true) : (componentAt? q).toList = [] := by
    obtain ⟨a, n⟩ := q
    obtain ⟨q, form, rfl⟩ := Node.exists_leaf_of_isMark mark
    rfl
  have defined : definitions (p.redraw (.adding added))
      = (definitions p).map fun c => c.redraw (.adding added) c.line := by
    rw [definitions, List.filterMap_eq_flatMap_toList, Program.flatMap_walk_redraw _ p _ blind,
      definitions, List.map_filterMap, List.filterMap_eq_flatMap_toList]
    simp only [componentAt?_redraw_adding]
  rw [components, defined, List.filter_map, components]
  refine congrArg (List.map _) (List.filter_congr fun c _ => ?_)
  simp [Component.redraw]

end JsxProvenance
