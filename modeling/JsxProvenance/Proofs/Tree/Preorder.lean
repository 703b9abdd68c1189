import Mathlib.Data.List.Basic
import Mathlib.Data.List.Flatten
import JsxProvenance.Proofs.Fields.Discovery
import JsxProvenance.Proofs.Tree.Trail

/-! The loop of the walk, with its stack. A turn takes the last place off the stack, visits it, and
puts its children on in reverse, so the next one to visit is again the last. What is left to visit is
therefore the walk of the reversed stack, and the loop ends with the tree in pre-order.
-/

namespace JsxProvenance.Ast

-----------------------------------------------------------------------------------------
-- The loop
-----------------------------------------------------------------------------------------

/-- A walk on its way: the places that are still to visit, the next one last, and those visited. -/
structure WalkState where
  stack : List Place
  visited : List Place := []
  deriving Repr, Inhabited

namespace WalkState

/-- The walk is over when nothing is left on the stack. Then a turn changes nothing. -/
def turn (w : WalkState) : Except Missing WalkState :=
  match w.stack.getLast? with
  | none => .ok w
  | some p => do
      let children ← p.childrenByField
      return { stack := w.stack.dropLast ++ children.reverse, visited := w.visited ++ [p] }

/-- Some turns, one after the other. -/
def turns : Nat → WalkState → Except Missing WalkState
  | 0, w => .ok w
  | n + 1, w => w.turn >>= turns n

/-- A turn visits the first of the pending places, which are the stack from its end, and the children
of that place are the next ones to visit.
-/
theorem turn_eq {p : Place} (syntactic : p.node.isSyntax = true) (pending visited : List Place)
    : turn ⟨(p :: pending).reverse, visited⟩
      = .ok ⟨(p.children ++ pending).reverse, visited ++ [p]⟩ := by
  rw [turn, List.reverse_cons, List.getLast?_concat, List.dropLast_concat]
  simp only [Place.childrenByField_eq syntactic, List.reverse_append]
  rfl

/-- After one turn for each place to visit, the walk is over and has visited the pending places with
all that is below them, by induction along their walk.
-/
theorem turns_eq {pending : List Place} (syntactic : ∀ p ∈ pending, p.node.isSyntax = true)
    (visited : List Place)
    : turns (walkFrom pending).length ⟨pending.reverse, visited⟩
      = .ok ⟨[], visited ++ walkFrom pending⟩ := by
  induction pending using walkFrom.induct generalizing visited with
  | case1 =>
      rw [walkFrom, List.append_nil]
      rfl
  | case2 p pending ih =>
      obtain ⟨here, later⟩ := List.forall_mem_cons.mp syntactic
      have next : ∀ q ∈ p.children ++ pending, q.node.isSyntax = true :=
        List.forall_mem_append.mpr ⟨fun _ child => (List.mem_filter.mp child).2, later⟩
      rw [walkFrom, List.length_cons, turns, turn_eq here]
      change turns _ _ = _
      rw [ih next, List.append_assoc, List.singleton_append]

end WalkState

-----------------------------------------------------------------------------------------
-- The order of a walk
-----------------------------------------------------------------------------------------

namespace Place

variable {p q : Place}

/-- A walk visits the syntax below a place, each node at its address, by induction on the children. -/
theorem mem_walk_iff_get? {found : Place} (syntactic : p.node.isSyntax = true)
    : found ∈ p.walk
      ↔ ∃ a,
          found.address = p.address ++ a
          ∧ p.node.get? a = some found.node
          ∧ found.node.isSyntax = true := by
  constructor
  · intro visited
    induction p using childrenInduction with
    | step p ih =>
        rcases mem_walk_iff.mp visited with rfl | ⟨child, below, visited⟩
        · exact ⟨[], (List.append_nil _).symm, rfl, syntactic⟩
        · obtain ⟨s, same, stepped, inner⟩ := mem_children_iff.mp below
          obtain ⟨a, address, reached, found⟩ := ih child below inner visited
          refine ⟨s :: a, ?_, ?_, found⟩
          · rw [address, same, List.append_assoc, List.singleton_append]
          · rw [Node.get?, stepped, Option.bind_some, reached]
  · rintro ⟨a, address, reached, inner⟩
    have visited := mem_walk_of_get? reached inner
    rwa [← address] at visited

/-- The walk of a place that is visited is one piece of the walk, by induction on the children. -/
theorem walk_infix_walk (visited : q ∈ p.walk) : q.walk <:+: p.walk := by
  induction p using childrenInduction with
  | step p ih =>
      rcases mem_walk_iff.mp visited with rfl | ⟨child, below, visited⟩
      · exact List.infix_rfl
      · rw [walk_eq p]
        have piece := List.infix_flatMap_of_mem below walk
        exact ((ih child below visited).trans piece).trans (List.suffix_cons _ _).isInfix

/-- A place is visited before its children. -/
theorem before_child {child : Place} (visited : q ∈ p.walk) (below : child ∈ q.children)
    : [q, child].Sublist p.walk := by
  refine List.Sublist.trans ?_ (walk_infix_walk visited).sublist
  rw [walk_eq q, List.cons_sublist_cons, List.singleton_sublist]
  exact List.mem_flatMap.mpr ⟨child, below, mem_walk_iff.mpr (Or.inl rfl)⟩

/-- All that is below a child is visited before all that is below a later one. -/
theorem before_sibling {first second x y : Place} (visited : q ∈ p.walk)
    (siblings : [first, second].Sublist q.children) (inside : x ∈ first.walk)
    (inside' : y ∈ second.walk)
    : [x, y].Sublist p.walk := by
  have both : [x, y].Sublist (first.walk ++ second.walk) :=
    (List.singleton_sublist.mpr inside).append (List.singleton_sublist.mpr inside')
  have pair : (first.walk ++ second.walk).Sublist (q.children.flatMap walk) := by
    have walks := siblings.flatMap walk
    rwa [List.flatMap_cons, List.flatMap_singleton] at walks
  have below : (q.children.flatMap walk).Sublist q.walk := by
    rw [walk_eq q]
    exact List.sublist_cons_self _ _
  exact ((both.trans pair).trans below).trans (walk_infix_walk visited).sublist

end Place

/-- The walk with a stack is the recursive pre-order. From any node the loop ends, after one turn for
each node that it has visited, and it has visited the node itself and then, in the order of the
fields and the lists in them, what it visits from each of the nodes in these. Each node of the tree
is visited just once, a node comes before those in its fields, and all below a node comes before all
below a later one that stands beside it.
-/
theorem Place.walk_preorder {p : Place} (syntactic : p.node.isSyntax = true)
    : WalkState.turns p.walk.length { stack := [p] } = .ok { stack := [], visited := p.walk }
      ∧ (∃ children, p.childrenByField = .ok children ∧ p.walk = p :: children.flatMap Place.walk)
      ∧ (∀ found,
          found ∈ p.walk
          ↔ ∃ a,
              found.address = p.address ++ a
              ∧ p.node.get? a = some found.node
              ∧ found.node.isSyntax = true)
      ∧ (p.walk.map (·.address)).Nodup
      ∧ (∀ q ∈ p.walk, q.walk <:+: p.walk)
      ∧ (∀ q ∈ p.walk, ∀ child ∈ q.children, [q, child].Sublist p.walk)
      ∧ ∀ q ∈ p.walk, ∀ first second,
          [first, second].Sublist q.children
          → ∀ x ∈ first.walk, ∀ y ∈ second.walk, [x, y].Sublist p.walk := by
  refine ⟨?_, ?_, ?_, p.nodup_walk, ?_, ?_, ?_⟩
  · exact WalkState.turns_eq (List.forall_mem_singleton.mpr syntactic) []
  · exact ⟨p.children, childrenByField_eq syntactic, p.walk_eq⟩
  · exact fun _ => mem_walk_iff_get? syntactic
  · exact fun _ => walk_infix_walk
  · exact fun _ visited _ => before_child visited
  · exact fun _ visited _ _ siblings _ inside _ => before_sibling visited siblings inside

/-- An element with a plain text for its name, a spread with an element in it, and gaps among its
children.
-/
def gappedTree : Node :=
  .element {} (.plain "ul")
    [
      .leaf {} (.jsxAttribute "id" none false),
      .group {} (.opaqueNode "jsx_expression") [.absent, .element {} .absent [] [] true none]
    ]
    [
      .absent, .wrap {} .jsxExpressionContainer .absent, .plain "li",
      .conditional {} .absent (.leaf {} (.jsxText "li")) .absent
    ]
    false (some 9)

/-- The loop visits the seven nodes of the tree in seven turns: the spread and what is in it after the
attribute and before the children, and no gap.
-/
theorem Place.walk_preorder_gapped
    : ∃ visited,
        WalkState.turns 7 { stack := [⟨[], gappedTree⟩] } = .ok { stack := [], visited }
        ∧ visited.map (·.node.typeName)
          = [
              "JSXElement", "JSXAttribute", "OpaqueNode", "JSXElement", "JSXExpressionContainer",
              "ConditionalExpression", "JSXText"
            ] := by
  have text (s : String) : (Node.plain s).trail = [] :=
    Node.trail_bare rfl
  have names
      : (walk ⟨[], gappedTree⟩).map (·.node.typeName)
        = [
            "JSXElement", "JSXAttribute", "OpaqueNode", "JSXElement", "JSXExpressionContainer",
            "ConditionalExpression", "JSXText"
          ] := by
    rw [← Function.comp_def, ← List.map_map, map_node_walk_eq_trail rfl]
    simp [gappedTree, text, Node.typeName]
  have seven : (walk ⟨[], gappedTree⟩).length = 7 := by
    simpa using congrArg List.length names
  obtain ⟨ends, _⟩ := walk_preorder (p := ⟨[], gappedTree⟩) rfl
  rw [seven] at ends
  exact ⟨_, ends, names⟩

end JsxProvenance.Ast
