import Mathlib.Data.List.Nodup
import JsxProvenance.Ast.Walk

/-! The walk of a tree by recursion on its nodes. The pending stack is a forest, so each place on
it is walked on its own; a place is walked before its children, and they in the order of their
fields. Every place of a walk is found again at its address.
-/

namespace JsxProvenance.Ast

-----------------------------------------------------------------------------------------
-- Induction over the parts of a node
-----------------------------------------------------------------------------------------

theorem Node.size_le_listSize {n : Node} {nodes : List Node} (member : n ∈ nodes)
    : n.size ≤ listSize nodes := by
  induction nodes with
  | nil => exact absurd member List.not_mem_nil
  | cons first rest ih =>
      rw [listSize]
      rcases List.mem_cons.mp member with rfl | later
      · exact Nat.le_add_right _ _
      · exact Nat.le_trans (ih later) (Nat.le_add_left _ _)

theorem Node.size_lt_of_mem_slots {n part : Node} {s : Step} (member : (s, part) ∈ n.slots)
    : part.size < n.size :=
  Nat.lt_of_le_of_lt (size_le_listSize (List.mem_map_of_mem (f := (·.2)) member))
    n.listSize_slots_lt

/-- What holds of a node whenever it holds of its parts holds of all nodes, by induction on
size. One case serves all forms, whether they keep parts singly or in lists.
-/
@[elab_as_elim]
theorem Node.partsInduction {motive : Node → Prop}
    (step : ∀ n : Node, (∀ s part, (s, part) ∈ n.slots → motive part) → motive n) (n : Node)
    : motive n := by
  induction hk : n.size using Nat.strongRecOn generalizing n with
  | ind k ih =>
      apply step
      intro s part member
      exact ih part.size (hk ▸ size_lt_of_mem_slots member) part rfl

-----------------------------------------------------------------------------------------
-- The stack is a forest
-----------------------------------------------------------------------------------------

/-- A stack is walked one part after the other, by induction along the walk of the first. -/
theorem walkFrom_append (first second : List Place)
    : walkFrom (first ++ second) = walkFrom first ++ walkFrom second := by
  induction first using walkFrom.induct with
  | case1 => simp [walkFrom]
  | case2 p pending ih =>
      simp only [List.cons_append, walkFrom, List.cons.injEq, true_and]
      rw [← ih, List.append_assoc]

/-- Each place on the stack is walked on its own, by induction over the stack. -/
theorem walkFrom_eq_flatMap (stack : List Place)
    : walkFrom stack = stack.flatMap Place.walk := by
  induction stack with
  | nil => simp [walkFrom]
  | cons p rest ih =>
      rw [List.flatMap_cons, ← ih, Place.walk, ← walkFrom_append, List.singleton_append]

theorem Place.walk_eq (p : Place) : p.walk = p :: p.children.flatMap Place.walk := by
  rw [Place.walk, walkFrom, List.append_nil, walkFrom_eq_flatMap]

-----------------------------------------------------------------------------------------
-- The places of a walk
-----------------------------------------------------------------------------------------

theorem Node.mem_mapIdx {step : Nat → Step} {nodes : List Node} {s : Step} {part : Node}
    : (s, part) ∈ nodes.mapIdx (fun i n => (step i, n))
      ↔ ∃ i, nodes[i]? = some part ∧ s = step i := by
  simp only [List.mem_mapIdx, Prod.mk.injEq]
  constructor
  · rintro ⟨i, inside, same, rfl⟩
    exact ⟨i, List.getElem?_eq_some_iff.mpr ⟨inside, rfl⟩ |>.trans (congrArg some rfl), same.symm⟩
  · rintro ⟨i, found, rfl⟩
    obtain ⟨inside, rfl⟩ := List.getElem?_eq_some_iff.mp found
    exact ⟨i, inside, rfl, rfl⟩

/-- The slots of a node are the parts that its steps lead to, by cases on the form. -/
theorem Node.mem_slots_iff {n part : Node} {s : Step}
    : (s, part) ∈ n.slots ↔ n.step? s = some part := by
  cases n with
  | absent | plain | leaf => simp [slots, step?]
  | wrap p form below => rcases s with (_ | _) | _ | _ <;> simp [slots, step?, eq_comm]
  | declarator p binding init =>
      rcases s with (_ | _ | _) | _ | _ <;> simp [slots, step?, eq_comm]
  | conditional p test consequent alternate =>
      rcases s with (_ | _ | _ | _) | _ | _ <;> simp [slots, step?, eq_comm]
  | group p form parts =>
      rw [slots, mem_mapIdx]
      cases s <;> simp [step?]
  | element p name attrs children sc off =>
      simp only [slots, List.cons_append, List.mem_cons, List.mem_append, mem_mapIdx, Prod.mk.injEq]
      rcases s with (_ | _) | _ | _ <;> simp [step?, eq_comm]

/-- The children of a place are the parts that are syntax, each at its step. -/
theorem Place.mem_children_iff {p child : Place}
    : child ∈ p.children
      ↔ ∃ s, child.address = p.address ++ [s]
          ∧ p.node.step? s = some child.node
          ∧ child.node.isSyntax = true := by
  simp only [children, slots, List.mem_filter, List.mem_map, Prod.exists, Node.mem_slots_iff]
  constructor
  · rintro ⟨⟨s, part, found, rfl⟩, syntactic⟩
    exact ⟨s, rfl, found, syntactic⟩
  · rintro ⟨s, same, found, syntactic⟩
    refine ⟨⟨s, child.node, found, ?_⟩, syntactic⟩
    rw [← same]

theorem Node.get?_append (n : Node) (a b : Address)
    : n.get? (a ++ b) = (n.get? a).bind (·.get? b) := by
  induction a generalizing n with
  | nil => rfl
  | cons s rest ih =>
      simp only [List.cons_append, get?]
      cases n.step? s with
      | none => rfl
      | some part => exact ih part

/-- What holds of a place whenever it holds of its children holds of all places. -/
@[elab_as_elim]
theorem Place.childrenInduction {motive : Place → Prop}
    (step : ∀ p : Place, (∀ child ∈ p.children, motive child) → motive p) (p : Place)
    : motive p := by
  obtain ⟨a, n⟩ := p
  induction n using Node.partsInduction generalizing a with
  | step n ih =>
      apply step
      intro child member
      obtain ⟨s, _, found, _⟩ := mem_children_iff.mp member
      exact ih s child.node (Node.mem_slots_iff.mpr found) child.address

theorem Place.mem_walk_iff {p found : Place}
    : found ∈ p.walk ↔ found = p ∨ ∃ child ∈ p.children, found ∈ child.walk := by
  rw [walk_eq, List.mem_cons, List.mem_flatMap]

/-- A walk visits the children of all it visits, by induction on the children. -/
theorem Place.child_mem_walk {p found child : Place} (visited : found ∈ p.walk)
    (member : child ∈ found.children)
    : child ∈ p.walk := by
  induction p using childrenInduction with
  | step p ih =>
      apply mem_walk_iff.mpr
      rcases mem_walk_iff.mp visited with rfl | ⟨next, below, visited⟩
      · exact Or.inr ⟨child, member, mem_walk_iff.mpr (Or.inl rfl)⟩
      · exact Or.inr ⟨next, below, ih next below visited⟩

/-- What a walk visits is the node at its address, by induction on the children. -/
theorem Place.get?_of_mem_walk {root : Node} {p found : Place}
    (start : root.get? p.address = some p.node) (visited : found ∈ p.walk)
    : root.get? found.address = some found.node := by
  induction p using childrenInduction with
  | step p ih =>
      rcases mem_walk_iff.mp visited with rfl | ⟨next, below, visited⟩
      · exact start
      · obtain ⟨s, same, stepped, _⟩ := mem_children_iff.mp below
        apply ih next below _ visited
        rw [same, Node.get?_append, start, Option.bind_some, Node.get?, stepped]
        rfl

theorem Node.isSyntax_of_get? {n found : Node} {a : Address} (reached : n.get? a = some found)
    (syntactic : found.isSyntax = true)
    : n.isSyntax = true := by
  cases n with
  | absent | plain =>
      cases a with
      | nil => exact Option.some.inj reached ▸ syntactic
      | cons s rest => cases reached
  | _ => rfl

/-- A walk visits all syntax below a place, by induction on the way to it. -/
theorem Place.mem_walk_of_get? {p : Place} {found : Node} {a : Address}
    (reached : p.node.get? a = some found) (syntactic : found.isSyntax = true)
    : ⟨p.address ++ a, found⟩ ∈ p.walk := by
  induction a generalizing p with
  | nil =>
      obtain rfl := Option.some.inj reached
      rw [List.append_nil]
      exact mem_walk_iff.mpr (Or.inl rfl)
  | cons s rest ih =>
      obtain ⟨part, stepped, reached⟩ := Option.bind_eq_some_iff.mp reached
      have child : ⟨p.address ++ [s], part⟩ ∈ p.children :=
        mem_children_iff.mpr ⟨s, rfl, stepped, Node.isSyntax_of_get? reached syntactic⟩
      have below := ih (p := ⟨p.address ++ [s], part⟩) reached
      rw [List.append_assoc, List.singleton_append] at below
      exact mem_walk_iff.mpr (Or.inr ⟨_, child, below⟩)

-----------------------------------------------------------------------------------------
-- No place is visited twice
-----------------------------------------------------------------------------------------

theorem Node.nodup_mapIdx {step : Nat → Step} (apart : ∀ i j, step i = step j → i = j)
    (nodes : List Node)
    : ((nodes.mapIdx fun i n => (step i, n)).map (·.1)).Nodup := by
  induction nodes generalizing step with
  | nil => exact .nil
  | cons n rest ih =>
      rw [List.mapIdx_cons, List.map_cons, List.nodup_cons]
      refine ⟨?_, ih fun i j same => Nat.succ.inj (apart _ _ same)⟩
      intro member
      obtain ⟨⟨s, part⟩, slot, same⟩ := List.mem_map.mp member
      obtain ⟨i, _, rfl⟩ := mem_mapIdx.mp slot
      cases apart _ _ same

/-- The slots of a node have different steps, by cases on the form. -/
theorem Node.nodup_slots (n : Node) : (n.slots.map (·.1)).Nodup := by
  cases n with
  | absent | plain | leaf => exact .nil
  | wrap | declarator | conditional => simp [slots]
  | group p form parts => exact nodup_mapIdx (fun _ _ => Step.part.inj) parts
  | element p name attrs children sc off =>
      have attributes := nodup_mapIdx (fun _ _ => Step.attribute.inj) attrs
      have below := nodup_mapIdx (fun _ _ => Step.child.inj) children
      simp only [slots, List.cons_append, List.map_cons, List.map_append, List.nodup_cons,
        List.nodup_append, List.mem_append, List.mem_map, Prod.exists, mem_mapIdx]
      refine ⟨?_, attributes, below, ?_⟩
      · rintro (⟨_, _, ⟨i, _, rfl⟩, same⟩ | ⟨_, _, ⟨i, _, rfl⟩, same⟩) <;> cases same
      · rintro _ ⟨_, _, ⟨i, _, rfl⟩, rfl⟩ _ ⟨_, _, ⟨j, _, rfl⟩, rfl⟩ same
        cases same

theorem Place.prefix_of_mem_walk {p found : Place} (visited : found ∈ p.walk)
    : p.address <+: found.address := by
  induction p using childrenInduction with
  | step p ih =>
      rcases mem_walk_iff.mp visited with rfl | ⟨child, below, visited⟩
      · exact List.prefix_rfl
      · obtain ⟨s, same, _⟩ := mem_children_iff.mp below
        exact (same ▸ List.prefix_append p.address [s]).trans (ih child below visited)

theorem Place.pairwise_children (p : Place)
    : p.children.Pairwise fun first second => first.address ≠ second.address := by
  have steps := p.node.nodup_slots
  rw [List.Nodup, List.pairwise_map] at steps
  refine List.Pairwise.filter _ (List.pairwise_map.mpr (steps.imp fun different same => ?_))
  exact different (List.singleton_inj.mp (List.append_cancel_left same))

/-- A walk visits no address twice, by induction on the children: the walks of two children lie
below different steps.
-/
theorem Place.nodup_walk (p : Place) : (p.walk.map (·.address)).Nodup := by
  induction p using childrenInduction with
  | step p ih =>
      have below {child : Place} (member : child ∈ p.children)
          : child.address.length = p.address.length + 1 := by
        obtain ⟨s, same, _⟩ := mem_children_iff.mp member
        rw [same, List.length_append, List.length_singleton]
      rw [walk_eq, List.map_cons, List.map_flatMap, List.nodup_cons, List.nodup_flatMap]
      refine ⟨?_, ih, p.pairwise_children.imp_of_mem ?_⟩
      · intro member
        obtain ⟨child, childMember, member⟩ := List.mem_flatMap.mp member
        obtain ⟨found, visited, same⟩ := List.mem_map.mp member
        have longer := (prefix_of_mem_walk visited).length_le
        rw [same, below childMember] at longer
        omega
      · intro first second firstMember secondMember different a left right
        obtain ⟨found, visited, rfl⟩ := List.mem_map.mp left
        obtain ⟨other, visited', same⟩ := List.mem_map.mp right
        have inside := prefix_of_mem_walk visited
        have inside' := same ▸ prefix_of_mem_walk visited'
        have equal : first.address.length = second.address.length := by
          rw [below firstMember, below secondMember]
        have same := List.prefix_of_prefix_length_le inside inside' (Nat.le_of_eq equal)
        exact different (same.eq_of_length equal)

end JsxProvenance.Ast
