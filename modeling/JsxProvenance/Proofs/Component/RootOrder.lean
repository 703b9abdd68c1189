import Mathlib.Data.List.Flatten
import JsxProvenance.Proofs.Component.Roots

/-! The roots of a component in walk order. The JSX of a definition is the JSX that a walk from it
meets, and the roots are a selection of it in the same order. The argument of a return follows the
return, so the arguments of the returns follow each other as the returns do.
-/

namespace JsxProvenance

open Ast

-----------------------------------------------------------------------------------------
-- The JSX of a place
-----------------------------------------------------------------------------------------

namespace Ast

theorem Node.isSyntax_of_isReturn {n : Node} (returns : n.isReturn = true) : n.isSyntax = true := by
  cases n with
  | wrap => rfl
  | _ => cases returns

theorem Node.isSyntax_of_isMethod {n : Node} {name : String} (named : n.isMethod name = true)
    : n.isSyntax = true := by
  cases n with
  | wrap => rfl
  | _ => cases named

namespace Place

/-- The elements and fragments in a place, in walk order. -/
def jsx (p : Place) : List Place :=
  p.walk.filter (·.node.isJsx)

variable {p : Place}

/-- The JSX below a place is part of its JSX. -/
theorem jsx_eq (p : Place) : p.jsx = [p].filter (·.node.isJsx) ++ p.children.flatMap jsx := by
  rw [jsx, walk_eq, ← List.singleton_append, List.filter_append, List.filter_flatMap]
  rfl

theorem jsx_of_isJsx (jsx : p.node.isJsx = true) : p.jsx = p :: p.children.flatMap Place.jsx := by
  rw [jsx_eq, List.filter_cons_of_pos (by exact jsx)]
  rfl

theorem jsx_below_sublist (p : Place) : (p.children.flatMap jsx).Sublist p.jsx := by
  rw [jsx_eq]
  exact List.sublist_append_right _ _

theorem jsx_child_sublist {child : Place} (member : child ∈ p.children)
    : child.jsx.Sublist p.jsx := by
  obtain ⟨before, after, children⟩ := List.append_of_mem member
  refine List.Sublist.trans ?_ p.jsx_below_sublist
  rw [children, List.flatMap_append, List.flatMap_cons]
  exact (List.sublist_append_left _ _).trans (List.sublist_append_right _ _)

/-- The JSX of a place that a walk visits is part of the JSX of the walk, by induction on the children.
-/
theorem jsx_sublist_of_mem_walk {found : Place} (visited : found ∈ p.walk)
    : found.jsx.Sublist p.jsx := by
  induction p using childrenInduction with
  | step p ih =>
      rcases mem_walk_iff.mp visited with rfl | ⟨child, below, visited⟩
      · exact .refl _
      · exact (ih child below visited).trans (jsx_child_sublist below)

/-- The JSX among some of the parts of a place is part of its JSX. -/
theorem jsx_slots_sublist {parts : List Place} (among : parts.Sublist p.slots)
    : (parts.filter (·.node.isJsx)).Sublist p.jsx := by
  have heads (ps : List Place) : (ps.filter (·.node.isJsx)).Sublist (ps.flatMap jsx) := by
    induction ps with
    | nil => exact .refl _
    | cons q rest ih =>
        rw [List.flatMap_cons, jsx_eq, ← List.singleton_append, List.filter_append,
          List.append_assoc]
        exact (ih.trans (List.sublist_append_right _ _)).append_left _
  have syntactic : p.slots.filter (·.node.isJsx) = p.children.filter (·.node.isJsx) := by
    rw [children, List.filter_filter]
    refine List.filter_congr fun q _ => ?_
    cases isJsx : q.node.isJsx with
    | false => rfl
    | true => rw [Node.isSyntax_of_isJsx isJsx, Bool.and_self]
  have chosen := among.filter (·.node.isJsx)
  rw [syntactic] at chosen
  exact (chosen.trans (heads _)).trans p.jsx_below_sublist

/-- The JSX of a part is part of the JSX of the place. A part that is no syntax has none. -/
theorem jsx_part_sublist (p : Place) (i : Nat) : (p.part i).jsx.Sublist p.jsx := by
  cases syntactic : (p.part i).node.isSyntax with
  | false =>
      have bare : (p.part i).jsx = [] := by
        rw [jsx_eq, children, slots]
        cases form : (p.part i).node with
        | absent | plain => simp [form, Node.slots, Node.isJsx]
        | _ =>
            rw [form] at syntactic
            cases syntactic
      rw [bare]
      exact List.nil_sublist _
  | true =>
      cases found : p.node.step? (.part i) with
      | none =>
          rw [part, found] at syntactic
          cases syntactic
      | some n =>
          refine jsx_child_sublist (mem_children_iff.mpr ⟨.part i, rfl, ?_, syntactic⟩)
          rw [part, found]
          rfl

end Place
end Ast

-----------------------------------------------------------------------------------------
-- The roots of functions
-----------------------------------------------------------------------------------------

theorem returnedRoots_sublist (argument : Place)
    : (returnedRoots argument).Sublist argument.jsx := by
  obtain ⟨a, n⟩ := argument
  unfold returnedRoots
  split
  · next form =>
      subst form
      exact Place.jsx_slots_sublist (List.sublist_cons_self _ _)
  · split
    · next jsx =>
        rw [Place.jsx_of_isJsx jsx]
        exact (List.nil_sublist _).cons_cons _
    · exact List.nil_sublist _

/-- The roots of a function's body are part of the JSX of the body. -/
theorem functionRoots_sublist (body : Place) : (functionRoots body).Sublist body.jsx := by
  unfold functionRoots
  split
  · next jsx =>
      rw [Place.jsx_of_isJsx jsx]
      exact (List.nil_sublist _).cons_cons _
  · split
    · split
      · next statement found =>
          have returns := List.find?_some found
          have inside : statement ∈ body.children :=
            List.mem_filter.mpr ⟨List.mem_of_find?_eq_some found, Node.isSyntax_of_isReturn returns⟩
          exact ((returnedRoots_sublist _).trans (statement.jsx_part_sublist 0)).trans
            (Place.jsx_child_sublist inside)
      · exact List.nil_sublist _
    · exact List.nil_sublist _

-----------------------------------------------------------------------------------------
-- The roots of classes
-----------------------------------------------------------------------------------------

/-- What the returns in a place give is part of the JSX below the place, by induction on the children.
A return gives its only child.
-/
theorem returnedInside_sublist (body : Place)
    : (returnedInside body).Sublist (body.children.flatMap Place.jsx) := by
  induction body using Place.childrenInduction with
  | step body ih =>
      rw [returnedInside_eq_flatMap, Place.walk_eq, List.flatMap_cons, List.flatMap_assoc]
      simp only [← returnedInside_eq_flatMap]
      cases gives : body.node.isReturn && (body.part 0).node.isJsx with
      | false =>
          rw [returnedBy, gives]
          exact List.Sublist.flatMap_right _ fun child member =>
            (ih child member).trans child.jsx_below_sublist
      | true =>
          obtain ⟨returns, jsx⟩ := Bool.and_eq_true_iff.mp gives
          have only : body.children = [body.part 0] := by
            obtain ⟨a, n⟩ := body
            cases n with
            | wrap q form argument =>
                exact List.filter_cons_of_pos (Node.isSyntax_of_isJsx jsx)
            | _ => cases returns
          have below := ih (body.part 0) (only ▸ List.mem_singleton_self _)
          rw [returnedBy, gives, only, List.flatMap_singleton, List.flatMap_singleton,
            Place.jsx_of_isJsx jsx]
          exact below.cons_cons _

theorem renderRoots_sublist (definition : Place)
    : (renderRoots definition).Sublist definition.jsx := by
  unfold renderRoots
  split
  · next method render =>
      split
      · next syntactic =>
          have inside : method ∈ definition.children := by
            unfold renderOf? at render
            split at render
            · have named := List.find?_some render
              exact List.mem_filter.mpr
                ⟨List.mem_of_find?_eq_some render, Node.isSyntax_of_isMethod named⟩
            · cases render
          refine (returnedInside_sublist _).trans ((method.part 0).jsx_below_sublist.trans ?_)
          exact (method.jsx_part_sublist 0).trans (Place.jsx_child_sublist inside)
      · exact List.nil_sublist _
  · exact List.nil_sublist _

/-- The roots of a component are part of the JSX of its definition, in walk order. -/
theorem roots_sublist {p : Place} {c : Component} (defined : componentAt? p = some c)
    : c.roots.Sublist p.jsx := by
  unfold componentAt? at defined
  split at defined
  · split at defined
    · cases defined
    · cases defined
      exact (functionRoots_sublist _).trans (p.jsx_part_sublist 0)
  · split at defined
    · cases defined
    · cases defined
      refine (functionRoots_sublist _).trans ?_
      exact ((p.part 1).jsx_part_sublist 0).trans (p.jsx_part_sublist 1)
  · obtain ⟨_, _, rfl⟩ := Option.map_eq_some_iff.mp defined
    exact renderRoots_sublist p
  · cases defined

/-- The components of a program are defined along its walk, each at a place of its own. -/
theorem exists_definitions (p : Program)
    : ∃ places : List Place,
        places.Sublist p.walk ∧ places.map componentAt? = (components p).map some := by
  refine ⟨p.walk.filter fun q => (componentAt? q).any (!·.roots.isEmpty), List.filter_sublist, ?_⟩
  rw [components, definitions]
  induction p.walk with
  | nil => rfl
  | cons q rest ih =>
      cases defined : componentAt? q with
      | none => simpa [defined] using ih
      | some c => cases rooted : c.roots.isEmpty <;> simpa [defined, rooted] using ih

end JsxProvenance
