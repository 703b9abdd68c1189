import JsxProvenance.Ast.Address

/-!
The pre-order walk of a tree. It keeps a stack of places still to visit, takes the first, and
puts its children in front of the others. The walk ends because the nodes on the stack get
smaller in total.
-/

namespace JsxProvenance.Ast

mutual
/-- The number of nodes of a tree, also those that are no syntax. -/
def Node.size : Node → Nat
  | .absent => 1
  | .plain _ => 1
  | .leaf _ _ => 1
  | .wrap _ _ part => 1 + part.size
  | .declarator _ binding init => 1 + (binding.size + init.size)
  | .conditional _ test consequent alternate =>
      1 + (test.size + consequent.size + alternate.size)
  | .group _ _ parts => 1 + listSize parts
  | .element _ name attrs children _ _ =>
      1 + (name.size + listSize attrs + listSize children)

/-- The number of nodes of several trees. -/
def Node.listSize : List Node → Nat
  | [] => 0
  | n :: rest => n.size + Node.listSize rest
end

theorem Node.listSize_append (first second : List Node)
    : listSize (first ++ second) = listSize first + listSize second := by
  induction first with
  | nil => simp [listSize]
  | cons n rest ih => simp [listSize, ih, Nat.add_assoc]

theorem Node.listSize_filter_le (keep : Node → Bool) (nodes : List Node)
    : listSize (nodes.filter keep) ≤ listSize nodes := by
  induction nodes with
  | nil => simp
  | cons n rest ih => by_cases h : keep n <;> simp [listSize, h] <;> omega

theorem Node.map_snd_mapIdx (step : Nat → Step) (nodes : List Node)
    : (nodes.mapIdx fun i n => (step i, n)).map (·.2) = nodes := by
  induction nodes generalizing step with
  | nil => rfl
  | cons n rest ih => simpa [List.mapIdx_cons] using ih fun i => step (i + 1)

theorem Node.listSize_slots_lt (n : Node) : listSize (n.slots.map (·.2)) < n.size := by
  cases n <;>
    simp only [slots, size, listSize, List.map_cons, List.map_nil, List.map_append,
      List.cons_append, map_snd_mapIdx, listSize_append] <;>
    omega

/-- The total size of the nodes on a stack. -/
def stackSize (stack : List Place) : Nat :=
  Node.listSize (stack.map (·.node))

theorem stackSize_cons (p : Place) (rest : List Place)
    : stackSize (p :: rest) = p.node.size + stackSize rest :=
  rfl

theorem stackSize_append (first second : List Place)
    : stackSize (first ++ second) = stackSize first + stackSize second := by
  simp [stackSize, Node.listSize_append]

/-- The nodes of the children are the parts that are syntax. -/
theorem Place.map_node_children (p : Place)
    : p.children.map (·.node) = (p.node.slots.map (·.2)).filter (·.isSyntax) := by
  simp [children, slots, List.filter_map, Function.comp_def]

/-- The children of a place are smaller than the place in total, so the walk ends. -/
theorem Place.stackSize_children_lt (p : Place) : stackSize p.children < p.node.size := by
  rw [stackSize, map_node_children]
  exact Nat.lt_of_le_of_lt (Node.listSize_filter_le _ _) p.node.listSize_slots_lt

/-- Visits the places on a stack and all that is below them. -/
def walkFrom : List Place → List Place
  | [] => []
  | p :: pending => p :: walkFrom (p.children ++ pending)
termination_by stack => stackSize stack
decreasing_by
  rw [stackSize_append, stackSize_cons]
  exact Nat.add_lt_add_right p.stackSize_children_lt _

/-- A place and all that is below it, each node before its parts. -/
def Place.walk (p : Place) : List Place :=
  walkFrom [p]

/-- A node and all nodes below it, each before its parts. -/
def Node.walk (n : Node) : List Node :=
  (Place.walk ⟨[], n⟩).map (·.node)

/-- All nodes of a program in walk order, the program itself first. -/
def Program.walk (p : Program) : List Place :=
  p.toPlace.walk

end JsxProvenance.Ast
