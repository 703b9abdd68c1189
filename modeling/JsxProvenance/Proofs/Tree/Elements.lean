import JsxProvenance.Proofs.Tree.Redraw
import JsxProvenance.Proofs.Tree.Trail

/-! The elements of a tree in walk order. They are gathered part by part, so what holds of the
elements of all parts of a node holds of its own, and only an element adds one.
-/

namespace JsxProvenance.Ast

namespace Node

def insertOffset? : Node → Option Nat
  | element _ _ _ _ _ off => off
  | _ => none

/-- The elements of a tree in walk order. -/
def elements (n : Node) : List Node :=
  n.walk.filter isElement

/-- The elements of a tree are those of its trail. -/
theorem elements_eq_filter (n : Node) : n.elements = n.trail.filter isElement := by
  have syntactic (m : Node) : (m.isElement && m.isSyntax) = m.isElement := by
    cases m <;> rfl
  simp only [elements, trail, List.filter_filter, syntactic]

/-- The elements of a node are itself, if it is one, and those of its parts. -/
theorem elements_eq (n : Node)
    : n.elements = [n].filter isElement ++ (n.slots.map (·.2)).flatMap elements := by
  cases syntactic : n.isSyntax with
  | true =>
      rw [elements_eq_filter, trail_eq syntactic, ← List.singleton_append,
        List.filter_append, List.filter_flatMap]
      simp only [← elements_eq_filter]
  | false =>
      rw [elements_eq_filter, trail_bare syntactic]
      cases n with
      | absent | plain => rfl
      | _ => cases syntactic

@[simp]
theorem elements_absent : absent.elements = [] := by
  rw [elements_eq]
  rfl

@[simp]
theorem elements_leaf (p : Position) (form : Leaf) : (leaf p form).elements = [] := by
  rw [elements_eq]
  rfl

@[simp]
theorem elements_wrap (p : Position) (form : Wrapper) (part : Node)
    : (wrap p form part).elements = part.elements := by
  rw [elements_eq]
  simp [slots, isElement]

@[simp]
theorem elements_declarator (p : Position) (binding init : Node)
    : (declarator p binding init).elements = binding.elements ++ init.elements := by
  rw [elements_eq]
  simp [slots, isElement]

@[simp]
theorem elements_conditional (p : Position) (test consequent alternate : Node)
    : (conditional p test consequent alternate).elements
      = test.elements ++ (consequent.elements ++ alternate.elements) := by
  rw [elements_eq]
  simp [slots, isElement]

@[simp]
theorem elements_group (p : Position) (form : Group) (parts : List Node)
    : (group p form parts).elements = parts.flatMap elements := by
  rw [elements_eq, slots, map_snd_mapIdx]
  rfl

@[simp]
theorem elements_element (p : Position) (name : Node) (attrs children : List Node) (sc : Bool)
    (off : Option Nat)
    : (element p name attrs children sc off).elements
      = element p name attrs children sc off
        :: (name.elements ++ (attrs.flatMap elements ++ children.flatMap elements)) := by
  rw [elements_eq]
  simp [slots, map_snd_mapIdx]
  rfl

end Node

/-- The elements of a program, place by place. -/
theorem Program.map_node_elements (p : Program)
    : (p.walk.filter (·.node.isElement)).map (·.node) = p.body.flatMap Node.elements := by
  rw [← Node.elements_group p.position (.program p.filename) p.body, ← toNode,
    Node.elements_eq_filter, ← map_node_walk, List.filter_map]
  rfl

/-- The elements of a program with their addresses, in walk order. -/
def Program.elementPlaces (p : Program) : List Place :=
  p.walk.filter (·.node.isElement)

/-- Every element of a program has an offset to write at. -/
def Program.Writable (p : Program) : Prop :=
  ∀ place ∈ p.elementPlaces, place.node.insertOffset?.isSome = true

theorem flatMap_filter {α β : Type} (keep : α → Bool) (g : α → List β) (xs : List α)
    : (xs.filter keep).flatMap g = xs.flatMap fun x => if keep x then g x else [] := by
  induction xs with
  | nil => rfl
  | cons x rest ih => cases kept : keep x <;> simp [kept, ih]

/-- The elements of a drawing are those of the program as they are drawn. -/
theorem Program.elementPlaces_redraw (r : Redraw) (p : Program)
    : (p.redraw r).elementPlaces = p.elementPlaces.map (·.redraw r) := by
  rw [← List.flatMap_singleton' (p.redraw r).elementPlaces, List.map_eq_flatMap, elementPlaces,
    elementPlaces, flatMap_filter, flatMap_filter, flatMap_walk_redraw]
  · refine List.flatMap_congr fun place _ => ?_
    rw [Place.redraw, Node.isElement_redraw]
  · intro place mark
    obtain ⟨q, form, leaf⟩ := Node.exists_leaf_of_isMark mark
    rw [leaf]
    rfl

end JsxProvenance.Ast
