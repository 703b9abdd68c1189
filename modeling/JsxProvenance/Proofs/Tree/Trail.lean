import JsxProvenance.Proofs.Tree.Walk

/-! The syntax of a tree in walk order, without the places where it stands. A node that is syntax
comes before the syntax of its parts, and they follow in the order of the fields.
-/

namespace JsxProvenance.Ast

/-- The nodes of a walk do not depend on where it starts, by induction on the parts. -/
theorem Place.map_node_walk (p : Place) : p.walk.map (·.node) = p.node.walk := by
  obtain ⟨a, n⟩ := p
  have same (a b : Address)
      : (Place.walk ⟨a, n⟩).map (·.node) = (Place.walk ⟨b, n⟩).map (·.node) := by
    induction n using Node.partsInduction generalizing a b with
    | step n ih =>
        have each (a : Address)
            : (Place.children ⟨a, n⟩).flatMap (fun p => p.walk.map (·.node))
              = (n.slots.filter (·.2.isSyntax)).flatMap fun slot => slot.2.walk := by
          rw [children, slots, List.filter_map, List.flatMap_map]
          refine List.flatMap_congr fun slot member => ?_
          exact ih slot.1 slot.2 (List.mem_of_mem_filter member) _ _
        rw [walk_eq, walk_eq, List.map_cons, List.map_cons, List.map_flatMap, List.map_flatMap,
          each a, each b]
  exact same a []

namespace Node

/-- The syntax of a tree in walk order. -/
def trail (n : Node) : List Node :=
  n.walk.filter isSyntax

theorem trail_bare {n : Node} (bare : n.isSyntax = false) : n.trail = [] := by
  have alone : (Place.mk [] n).children = [] := by
    cases n with
    | absent | plain => rfl
    | _ => cases bare
  rw [trail, walk, Place.walk_eq, alone]
  simp [bare]

/-- A node that is syntax comes before the syntax of its parts. -/
theorem trail_eq {n : Node} (syntactic : n.isSyntax = true)
    : n.trail = n :: (n.slots.map (·.2)).flatMap trail := by
  have parts : (Place.mk [] n).children.flatMap (fun p => (p.walk.map (·.node)).filter isSyntax)
      = (n.slots.map (·.2)).flatMap trail := by
    simp only [Place.map_node_walk, Place.children, Place.slots, List.filter_map, List.flatMap_map]
    induction n.slots with
    | nil => rfl
    | cons slot rest ih =>
        cases h : slot.2.isSyntax with
        | true =>
            rw [List.filter_cons_of_pos (by simpa using h), List.flatMap_cons, List.flatMap_cons,
              ih]
            rfl
        | false =>
            rw [List.filter_cons_of_neg (by simpa using h), List.flatMap_cons, ih,
              trail_bare h, List.nil_append]
  rw [← parts, trail, walk, Place.walk_eq, List.map_cons, List.filter_cons_of_pos syntactic,
    List.map_flatMap, List.filter_flatMap]

@[simp]
theorem trail_absent : absent.trail = [] :=
  trail_bare rfl

@[simp]
theorem trail_leaf (p : Position) (form : Leaf) : (leaf p form).trail = [leaf p form] :=
  trail_eq rfl

@[simp]
theorem trail_wrap (p : Position) (form : Wrapper) (part : Node)
    : (wrap p form part).trail = wrap p form part :: part.trail := by
  rw [trail_eq rfl]
  simp [slots]

@[simp]
theorem trail_declarator (p : Position) (binding init : Node)
    : (declarator p binding init).trail
      = declarator p binding init :: (binding.trail ++ init.trail) := by
  rw [trail_eq rfl]
  simp [slots]

@[simp]
theorem trail_conditional (p : Position) (test consequent alternate : Node)
    : (conditional p test consequent alternate).trail
      = conditional p test consequent alternate
        :: (test.trail ++ (consequent.trail ++ alternate.trail)) := by
  rw [trail_eq rfl]
  simp [slots]

@[simp]
theorem trail_group (p : Position) (form : Group) (parts : List Node)
    : (group p form parts).trail = group p form parts :: parts.flatMap trail := by
  rw [trail_eq rfl, slots, map_snd_mapIdx]

@[simp]
theorem trail_element (p : Position) (name : Node) (attrs children : List Node) (sc : Bool)
    (off : Option Nat)
    : (element p name attrs children sc off).trail
      = element p name attrs children sc off
        :: (name.trail ++ (attrs.flatMap trail ++ children.flatMap trail)) := by
  rw [trail_eq rfl]
  simp [slots, map_snd_mapIdx]

theorem mem_trail_self {n : Node} (syntactic : n.isSyntax = true) : n ∈ n.trail := by
  rw [trail_eq syntactic]
  exact List.mem_cons_self

theorem mem_trail_of_part {p : Position} {form : Group} {parts : List Node} {n m : Node}
    (part : n ∈ parts) (below : m ∈ n.trail)
    : m ∈ (group p form parts).trail := by
  rw [trail_group]
  exact List.mem_cons_of_mem _ (List.mem_flatMap.mpr ⟨n, part, below⟩)

/-- The trail of a node goes along the trails of all syntax on it, by induction on the parts. -/
theorem mem_trail_trans {n m k : Node} (first : m ∈ n.trail) (second : k ∈ m.trail)
    : k ∈ n.trail := by
  induction n using partsInduction with
  | step n ih =>
      cases syntactic : n.isSyntax with
      | false =>
          rw [trail_bare syntactic] at first
          cases first
      | true =>
          rw [trail_eq syntactic] at first
          rcases List.mem_cons.mp first with rfl | below
          · exact second
          · obtain ⟨part, slot, inside⟩ := List.mem_flatMap.mp below
            obtain ⟨⟨s, _⟩, member, rfl⟩ := List.mem_map.mp slot
            rw [trail_eq syntactic]
            exact List.mem_cons_of_mem _ (List.mem_flatMap.mpr ⟨_, slot, ih s _ member inside⟩)

end Node

/-- A place that is syntax is walked along the trail of its node. -/
theorem Place.map_node_walk_eq_trail {p : Place} (syntactic : p.node.isSyntax = true)
    : p.walk.map (·.node) = p.node.trail := by
  have all : ∀ found ∈ p.walk, found.node.isSyntax = true := by
    intro found visited
    induction p using childrenInduction with
    | step p ih =>
        rcases mem_walk_iff.mp visited with rfl | ⟨child, below, visited⟩
        · exact syntactic
        · exact ih child below (List.mem_filter.mp below).2 visited
  rw [map_node_walk, Node.trail, ← map_node_walk, List.filter_eq_self.mpr]
  exact List.forall_mem_map.mpr all

/-- The nodes of a program in walk order. -/
theorem Program.map_node_walk (p : Program) : p.walk.map (·.node) = p.toNode.trail :=
  Place.map_node_walk_eq_trail (p := p.toPlace) rfl

end JsxProvenance.Ast
