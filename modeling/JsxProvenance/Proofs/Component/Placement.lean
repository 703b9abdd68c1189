import JsxProvenance.Proofs.Discovery

/-! Discovery looks only downward. What stands at a place decides which component it defines, and
the way to the place only lengthens the addresses of its roots. So a program has the components of
its statements, one after the other, and statements that follow others have the components that they
have alone, further on in the body.
-/

namespace JsxProvenance

open Ast

-----------------------------------------------------------------------------------------
-- A place seen from further up
-----------------------------------------------------------------------------------------

namespace Ast.Place

/-- The place as it is seen from a root that is further up by a way. -/
def under (above : Address) (p : Place) : Place :=
  ⟨above ++ p.address, p.node⟩

@[simp]
theorem node_under (above : Address) (p : Place) : (p.under above).node = p.node :=
  rfl

@[simp]
theorem part_under (above : Address) (p : Place) (i : Nat)
    : (p.under above).part i = (p.part i).under above := by
  simp only [part, under, List.append_assoc]

@[simp]
theorem slots_under (above : Address) (p : Place)
    : (p.under above).slots = p.slots.map (under above) := by
  simp only [slots, under, List.map_map, Function.comp_def, List.append_assoc]

theorem filter_under (keep : Node → Bool) (above : Address) (ps : List Place)
    : (ps.map (under above)).filter (keep ·.node)
      = (ps.filter (keep ·.node)).map (under above) :=
  List.filter_map

@[simp]
theorem children_under (above : Address) (p : Place)
    : (p.under above).children = p.children.map (under above) := by
  rw [children, children, slots_under, filter_under]

/-- A walk from further up visits the same places, by induction on the children. -/
@[simp]
theorem walk_under (above : Address) (p : Place)
    : (p.under above).walk = p.walk.map (under above) := by
  induction p using childrenInduction with
  | step p ih =>
      rw [walk_eq, walk_eq, children_under, List.flatMap_map, List.map_cons, List.map_flatMap]
      exact congrArg _ (List.flatMap_congr fun child member => ih child member)

end Ast.Place

-----------------------------------------------------------------------------------------
-- Roots seen from further up
-----------------------------------------------------------------------------------------

theorem returnedRoots_under (above : Address) (argument : Place)
    : returnedRoots (argument.under above) = (returnedRoots argument).map (·.under above) := by
  unfold returnedRoots
  rw [Place.node_under]
  split
  · rw [Place.part_under, Place.part_under]
    exact Place.filter_under Node.isJsx above [argument.part 1, argument.part 2]
  · split <;> rfl

theorem find?_slots_under (test : Node → Bool) (above : Address) (p : Place)
    : (p.under above).slots.find? (test ·.node)
      = (p.slots.find? (test ·.node)).map (·.under above) := by
  rw [Place.slots_under, List.find?_map]
  rfl

theorem functionRoots_under (above : Address) (body : Place)
    : functionRoots (body.under above) = (functionRoots body).map (·.under above) := by
  unfold functionRoots
  rw [Place.node_under]
  split
  · rfl
  · split
    · rw [find?_slots_under Node.isReturn]
      cases body.slots.find? (·.node.isReturn) with
      | none => rfl
      | some statement =>
          simp only [Option.map_some, Place.part_under, returnedRoots_under]
    · rfl

theorem renderOf?_under (above : Address) (definition : Place)
    : renderOf? (definition.under above) = (renderOf? definition).map (·.under above) := by
  unfold renderOf?
  rw [Place.node_under]
  split
  · exact find?_slots_under (Node.isMethod renderMethod) above definition
  · rfl

theorem returnedInside_under (above : Address) (body : Place)
    : returnedInside (body.under above) = (returnedInside body).map (·.under above) := by
  have returned (ps : List Place)
      : (ps.map (Place.under above)).map (·.part 0)
        = (ps.map (·.part 0)).map (·.under above) := by
    rw [List.map_map, List.map_map]
    exact List.map_congr_left fun p _ => Place.part_under above p 0
  rw [returnedInside, returnedInside, Place.walk_under, Place.filter_under Node.isReturn, returned,
    Place.filter_under Node.isJsx]

theorem renderRoots_under (above : Address) (definition : Place)
    : renderRoots (definition.under above) = (renderRoots definition).map (·.under above) := by
  unfold renderRoots
  rw [renderOf?_under]
  cases renderOf? definition with
  | none => rfl
  | some method =>
      simp only [Option.map_some, Place.part_under, Place.node_under, returnedInside_under]
      split <;> rfl

-----------------------------------------------------------------------------------------
-- Components seen from further up
-----------------------------------------------------------------------------------------

/-- The component as it is seen from a root that is further up by a way. -/
def Component.under (above : Address) (c : Component) : Component :=
  { c with roots := c.roots.map (·.under above) }

/-- What a place defines does not depend on the way to it, by cases on the three ways to define a
component.
-/
theorem componentAt?_under (above : Address) (p : Place)
    : componentAt? (p.under above) = (componentAt? p).map (·.under above) := by
  unfold componentAt?
  rw [Place.node_under]
  split
  · rw [Place.part_under, functionRoots_under]
    split <;> rfl
  · rw [Place.part_under, Place.part_under, functionRoots_under]
    split <;> rfl
  · rw [renderOf?_under, renderRoots_under, Option.map_map, Option.map_map]
    rfl
  · rfl

/-- What a statement defines, from further up. -/
theorem definitions_under (above : Address) (statement : Node)
    : (Place.walk ⟨above, statement⟩).filterMap componentAt?
      = ((Place.walk ⟨[], statement⟩).filterMap componentAt?).map (·.under above) := by
  have there : Place.mk above statement = Place.under above ⟨[], statement⟩ := by
    rw [Place.under, List.append_nil]
  rw [there, Place.walk_under, List.filterMap_map, List.map_filterMap]
  exact List.filterMap_congr fun p _ => componentAt?_under above p

-----------------------------------------------------------------------------------------
-- Statements further on
-----------------------------------------------------------------------------------------

/-- The address after so many more statements have been put in front of the body. -/
def Ast.Address.shift (count : Nat) : Address → Address
  | .part i :: rest => .part (i + count) :: rest
  | a => a

/-- The place after so many more statements have been put in front of the body. -/
def Ast.Place.shift (count : Nat) (p : Place) : Place :=
  ⟨p.address.shift count, p.node⟩

/-- The component after so many more statements have been put in front of the body. -/
def Component.shift (count : Nat) (c : Component) : Component :=
  { c with roots := c.roots.map (·.shift count) }

@[simp]
theorem Ast.Place.shift_zero (p : Place) : p.shift 0 = p := by
  obtain ⟨a, n⟩ := p
  cases a with
  | nil => rfl
  | cons s rest => cases s <;> rfl

theorem Component.map_shift_zero (cs : List Component) : cs.map (·.shift 0) = cs := by
  simp [shift]

theorem Component.shift_under (count i : Nat) (c : Component)
    : (c.under [.part i]).shift count = c.under [.part (i + count)] := by
  simp only [shift, under, List.map_map]
  rfl

namespace Ast.Program

variable {first second whole : Program}

theorem slots_toPlace (p : Program)
    : p.toPlace.slots = p.body.mapIdx fun i statement => ⟨[.part i], statement⟩ := by
  apply List.ext_getElem?
  intro i
  simp only [Place.slots, toPlace, toNode, Node.slots, List.getElem?_map, List.getElem?_mapIdx,
    Option.map_map]
  rfl

/-- The statements that follow others stand further on in the body. -/
theorem children_toPlace_append (joined : whole.body = first.body ++ second.body)
    : whole.toPlace.children
      = first.toPlace.children ++ second.toPlace.children.map (·.shift first.body.length) := by
  have later
      : (second.body.mapIdx fun i statement => Place.mk [.part (i + first.body.length)] statement)
        = second.toPlace.slots.map (·.shift first.body.length) := by
    rw [slots_toPlace]
    apply List.ext_getElem?
    intro i
    simp only [List.getElem?_mapIdx, List.getElem?_map, Option.map_map]
    rfl
  rw [Place.children, slots_toPlace, joined, List.mapIdx_append, ← slots_toPlace, later,
    List.filter_append, List.filter_map]
  rfl

end Ast.Program

/-- The definitions of a program, statement by statement. -/
theorem definitions_eq_flatMap (p : Program)
    : definitions p = p.toPlace.children.flatMap (·.walk.filterMap componentAt?) := by
  rw [definitions, Program.walk, Place.walk_eq, List.filterMap_cons_none rfl,
    List.filterMap_flatMap]

/-- A statement defines the same further on in the body, since discovery starts at the statement. -/
theorem definitions_shift (count : Nat) {p : Program} {statement : Place}
    (member : statement ∈ p.toPlace.children)
    : (statement.shift count).walk.filterMap componentAt?
      = (statement.walk.filterMap componentAt?).map (·.shift count) := by
  obtain ⟨slot, _⟩ := List.mem_filter.mp member
  rw [Program.slots_toPlace] at slot
  obtain ⟨i, _, rfl⟩ := List.mem_mapIdx.mp slot
  have there : Place.shift count ⟨[.part i], p.body[i]⟩ = ⟨[.part (i + count)], p.body[i]⟩ := rfl
  rw [there, definitions_under, definitions_under [.part i], List.map_map]
  exact List.map_congr_left fun c _ => (c.shift_under count i).symm

/-- The components of two bodies in one are those of the first, and then those of the second,
further on.
-/
theorem components_append {first second whole : Program}
    (joined : whole.body = first.body ++ second.body)
    : components whole
      = components first ++ (components second).map (·.shift first.body.length) := by
  have later
      : (second.toPlace.children.map (·.shift first.body.length)).flatMap
            (·.walk.filterMap componentAt?)
        = (definitions second).map (·.shift first.body.length) := by
    rw [definitions_eq_flatMap, List.map_flatMap, List.flatMap_map]
    exact List.flatMap_congr fun statement member => definitions_shift _ member
  have defined : definitions whole
      = definitions first ++ (definitions second).map (·.shift first.body.length) := by
    rw [definitions_eq_flatMap whole, Program.children_toPlace_append joined, List.flatMap_append,
      ← definitions_eq_flatMap, later]
  rw [components, defined, List.filter_append, List.filter_map]
  simp only [components, Function.comp_def, Component.shift, List.isEmpty_map]

end JsxProvenance
