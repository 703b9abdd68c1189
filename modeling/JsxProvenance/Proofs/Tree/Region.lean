import JsxProvenance.Annotation
import JsxProvenance.Proofs.Tree.Walk

/-! The region below a root: what is reached from it through the children lists of elements and
shorthand fragments. Two roots that stand under no such node have regions without a common node,
even if one root lies inside the tree of the other.
-/

namespace JsxProvenance.Ast

/-- The place is one of the program. -/
def Program.Has (p : Program) (place : Place) : Prop :=
  p.get? place.address = some place.node

/-- There is one place of a program at an address. -/
theorem Program.Has.unique {p : Program} {first second : Place} (hasFirst : p.Has first)
    (hasSecond : p.Has second) (same : first.address = second.address)
    : first = second := by
  obtain ⟨a, n⟩ := first
  obtain ⟨b, m⟩ := second
  cases same
  exact congrArg (Place.mk a) (Option.some.inj (hasFirst.symm.trans hasSecond))

/-- The node above an address is neither an element nor a shorthand fragment. -/
def Program.Detached (p : Program) (a : Address) : Prop :=
  ∃ above step n, a = above ++ [step] ∧ p.get? above = some n ∧ n.isJsx = false

namespace Place

/-- The children of an element or a shorthand fragment. No other node has any. -/
def jsxChildren (p : Place) : List Place :=
  match p.node with
  | .element _ _ _ children _ _ => children.mapIdx fun i n => ⟨p.address ++ [.child i], n⟩
  | .group _ .jsxFragment parts => parts.mapIdx fun i n => ⟨p.address ++ [.part i], n⟩
  | _ => []

/-- A place stands above another: the way to the one leads on to the other. -/
def IsAbove (above place : Place) : Prop :=
  above.address <+: place.address ∧ above.address ≠ place.address

instance (above place : Place) : Decidable (above.IsAbove place) :=
  inferInstanceAs (Decidable (_ ∧ _))

/-- A place is reached from another through the children lists of elements and shorthand fragments
only, not through an attribute, a tag name, an expression in braces or any other syntax.
-/
inductive Reaches : Place → Place → Prop
  | refl (p : Place) : Reaches p p
  | child {p q r : Place} (reached : Reaches p q) (member : r ∈ q.jsxChildren) : Reaches p r

-----------------------------------------------------------------------------------------
-- Children of JSX
-----------------------------------------------------------------------------------------

theorem isJsx_of_mem_jsxChildren {p child : Place} (member : child ∈ p.jsxChildren)
    : p.node.isJsx = true := by
  obtain ⟨a, n⟩ := p
  cases n with
  | element => rfl
  | group p form parts =>
      cases form with
      | jsxFragment => rfl
      | _ => exact absurd member List.not_mem_nil
  | _ => exact absurd member List.not_mem_nil

theorem mem_mapIdx_place {a : Address} {step : Nat → Step} {nodes : List Node} {child : Place}
    : (child ∈ nodes.mapIdx fun i n => ⟨a ++ [step i], n⟩)
      ↔ ∃ i, nodes[i]? = some child.node ∧ child.address = a ++ [step i] := by
  obtain ⟨b, part⟩ := child
  simp only [List.mem_mapIdx, mk.injEq]
  constructor
  · rintro ⟨i, inside, rfl, rfl⟩
    exact ⟨i, List.getElem?_eq_getElem inside, rfl⟩
  · rintro ⟨i, found, rfl⟩
    obtain ⟨inside, rfl⟩ := List.getElem?_eq_some_iff.mp found
    exact ⟨i, inside, rfl, rfl⟩

/-- A child of JSX stands one step below it, by cases on the nodes that have such children. -/
theorem step?_of_mem_jsxChildren {p child : Place} (member : child ∈ p.jsxChildren)
    : ∃ step, child.address = p.address ++ [step] ∧ p.node.step? step = some child.node := by
  obtain ⟨a, n⟩ := p
  cases n with
  | element p name attrs children sc off =>
      obtain ⟨i, found, placed⟩ := mem_mapIdx_place.mp member
      exact ⟨.child i, placed, found⟩
  | group p form parts =>
      cases form with
      | jsxFragment =>
          obtain ⟨i, found, placed⟩ := mem_mapIdx_place.mp member
          exact ⟨.part i, placed, found⟩
      | _ => exact absurd member List.not_mem_nil
  | _ => exact absurd member List.not_mem_nil

-----------------------------------------------------------------------------------------
-- Places of a region
-----------------------------------------------------------------------------------------

theorem Reaches.trans {p q r : Place} (first : p.Reaches q) (second : q.Reaches r)
    : p.Reaches r := by
  induction second with
  | refl => exact first
  | child _ member ih => exact ih.child member

/-- What a place of a program reaches is a place of the program, by induction on the way. -/
theorem Reaches.has {p : Program} {root place : Place} (reached : root.Reaches place)
    (has : p.Has root)
    : p.Has place := by
  induction reached with
  | refl => exact has
  | @child q r _ member ih =>
      obtain ⟨step, placed, stepped⟩ := step?_of_mem_jsxChildren member
      have there : p.toNode.get? q.address = some q.node := ih
      rw [Program.Has, Program.get?, placed, Node.get?_append, there, Option.bind_some, Node.get?,
        stepped]
      rfl

/-- The way to a place that is reached leads to its node, by induction on the way. -/
theorem Reaches.exists_way {root place : Place} (reached : root.Reaches place)
    : ∃ way, place.address = root.address ++ way ∧ root.node.get? way = some place.node := by
  induction reached with
  | refl => exact ⟨[], (List.append_nil _).symm, rfl⟩
  | @child q r _ member ih =>
      obtain ⟨way, placed, found⟩ := ih
      obtain ⟨step, below, stepped⟩ := step?_of_mem_jsxChildren member
      refine ⟨way ++ [step], ?_, ?_⟩
      · rw [below, placed, List.append_assoc]
      · rw [Node.get?_append, found, Option.bind_some, Node.get?, stepped]
        rfl

/-- A place stands above what is reached from its children. -/
theorem Reaches.isAbove {p child place : Place} (reached : child.Reaches place)
    (member : child ∈ p.jsxChildren)
    : p.IsAbove place := by
  obtain ⟨step, below, _⟩ := step?_of_mem_jsxChildren member
  obtain ⟨way, placed, _⟩ := reached.exists_way
  rw [below, List.append_assoc] at placed
  refine ⟨⟨_, placed.symm⟩, fun same => ?_⟩
  cases List.append_right_eq_self.mp (placed.symm.trans same.symm)

/-- There is one place of a region at an address. -/
theorem Reaches.eq_of_address {root first second : Place} (toFirst : root.Reaches first)
    (toSecond : root.Reaches second) (same : first.address = second.address)
    : first = second := by
  obtain ⟨way, placed, found⟩ := toFirst.exists_way
  obtain ⟨way', placed', found'⟩ := toSecond.exists_way
  obtain rfl : way = way' := List.append_cancel_left (placed.symm.trans (same.trans placed'))
  obtain ⟨a, n⟩ := first
  obtain ⟨b, m⟩ := second
  obtain rfl : a = b := same
  exact congrArg (Place.mk a) (Option.some.inj (found.symm.trans found'))

/-- A place that stands under no JSX is reached from no other place of the program. -/
theorem Reaches.eq_of_detached {p : Program} {root place : Place} (reached : root.Reaches place)
    (has : p.Has root) (detached : p.Detached place.address)
    : root = place := by
  cases reached with
  | refl => rfl
  | @child q _ reached member =>
      obtain ⟨above, step, n, placed, found, other⟩ := detached
      obtain ⟨step', placed', _⟩ := step?_of_mem_jsxChildren member
      have same : above = q.address :=
        (List.append_inj' (placed.symm.trans placed') rfl).1
      have there : p.get? q.address = some q.node := reached.has has
      rw [← same, found] at there
      rw [Option.some.inj there, isJsx_of_mem_jsxChildren member] at other
      cases other

/-- Regions of different roots have no place in common, by induction on the way from one of the
roots: the ways end in the same step as long as neither of them ends.
-/
theorem Reaches.unique {p : Program} {first second left right : Place}
    (toLeft : first.Reaches left) (toRight : second.Reaches right)
    (same : left.address = right.address) (hasFirst : p.Has first) (hasSecond : p.Has second)
    (detachedFirst : p.Detached first.address) (detachedSecond : p.Detached second.address)
    : first = second := by
  obtain rfl := (toLeft.has hasFirst).unique (toRight.has hasSecond) same
  clear same
  induction toLeft generalizing second with
  | refl => exact (toRight.eq_of_detached hasSecond detachedFirst).symm
  | @child q r toParent member ih =>
      cases toRight with
      | refl => exact (toParent.child member).eq_of_detached hasFirst detachedSecond
      | @child q' _ toParent' member' =>
          obtain ⟨step, placed, _⟩ := step?_of_mem_jsxChildren member
          obtain ⟨step', placed', _⟩ := step?_of_mem_jsxChildren member'
          have above : q.address = q'.address := (List.append_inj' (placed.symm.trans placed') rfl).1
          obtain rfl := (toParent.has hasFirst).unique (toParent'.has hasSecond) above
          exact ih hasSecond detachedSecond toParent'

-----------------------------------------------------------------------------------------
-- The region as a list
-----------------------------------------------------------------------------------------

theorem size_lt_of_mem_jsxChildren {p child : Place} (member : child ∈ p.jsxChildren)
    : child.node.size < p.node.size := by
  obtain ⟨_, _, stepped⟩ := step?_of_mem_jsxChildren member
  exact Node.size_lt_of_mem_slots (Node.mem_slots_iff.mpr stepped)

/-- The region of a place: the place itself, then the regions of its children one after the other. -/
def region (p : Place) : List Place :=
  p :: p.jsxChildren.attach.flatMap fun child => region child.1
termination_by p.node.size
decreasing_by exact size_lt_of_mem_jsxChildren child.2

theorem region_eq (p : Place) : p.region = p :: p.jsxChildren.flatMap region := by
  rw [region, List.flatMap_subtype (g := region) fun _ _ => rfl, List.unattach_attach]

theorem reaches_iff {p place : Place}
    : p.Reaches place ↔ place = p ∨ ∃ child ∈ p.jsxChildren, child.Reaches place := by
  constructor
  · intro reached
    induction reached with
    | refl => exact Or.inl rfl
    | child _ member ih =>
        rcases ih with rfl | ⟨first, among, below⟩
        · exact Or.inr ⟨_, member, .refl _⟩
        · exact Or.inr ⟨first, among, below.child member⟩
  · rintro (rfl | ⟨child, member, below⟩)
    · exact .refl place
    · exact ((Reaches.refl p).child member).trans below

/-- The region of a place lists what is reached from it, by induction on the size of the node. -/
theorem mem_region_iff {p place : Place} : place ∈ p.region ↔ p.Reaches place := by
  induction hk : p.node.size using Nat.strongRecOn generalizing p with
  | ind k ih =>
      rw [region_eq, reaches_iff, List.mem_cons, List.mem_flatMap]
      refine or_congr_right (exists_congr fun child => and_congr_right fun member => ?_)
      exact ih child.node.size (hk ▸ size_lt_of_mem_jsxChildren member) rfl

end Place
end JsxProvenance.Ast
