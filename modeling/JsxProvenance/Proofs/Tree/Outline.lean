import JsxProvenance.Proofs.Tree.Redraw

/-! Drawings in turn, and the outline of a tree. Two drawings one after the other are compared part
by part, so that one induction serves for additions that follow additions, and for trees that are
read again before more is added to them. The outline of a tree is what all its drawings that add
nothing have in common.
-/

namespace JsxProvenance.Ast

-----------------------------------------------------------------------------------------
-- Two drawings in turn
-----------------------------------------------------------------------------------------

/-- What an element at a position gains from two drawings in turn. -/
def Redraw.gainedTwice (r s : Redraw) (a : Address) (p : Position) : List Node :=
  ((r.added a).map fun (name, value) =>
      Node.leaf (s.position (r.position p))
        (.jsxAttribute name (s.value (some value)) (s.inserted true)))
    ++ Node.insertedAttributes (s.position (r.position p)) (s.added a)

/-- Two pairs of drawings do the same in turn. -/
structure Redraw.SameTwice (r s r' s' : Redraw) : Prop where
  position : ∀ p, s.position (r.position p) = s'.position (r'.position p)
  value : ∀ v, s.value (r.value v) = s'.value (r'.value v)
  inserted : ∀ b, s.inserted (r.inserted b) = s'.inserted (r'.inserted b)
  offset : ∀ o, s.offset (r.offset o) = s'.offset (r'.offset o)
  gained : ∀ a p, r.gainedTwice s a p = r'.gainedTwice s' a p

theorem Redraw.SameTwice.below {r s r' s' : Redraw} (same : SameTwice r s r' s') (step : Step)
    : SameTwice (r.below step) (s.below step) (r'.below step) (s'.below step) where
  position := same.position
  value := same.value
  inserted := same.inserted
  offset := same.offset
  gained a := same.gained (step :: a)

namespace Node

theorem listRedraw_append (r : Nat → Redraw) (first second : List Node)
    : listRedraw r (first ++ second)
      = listRedraw r first ++ listRedraw (fun i => r (i + first.length)) second := by
  induction first generalizing r with
  | nil => rfl
  | cons n rest ih =>
      rw [List.cons_append, listRedraw, listRedraw, ih, List.cons_append]
      simp only [List.length_cons, Nat.add_assoc]

/-- An element gains from two drawings in turn what the second makes of the gains of the first,
and its own.
-/
theorem gained_gained (r s : Redraw) (p : Position) (k : Nat)
    : listRedraw (fun i => s.below (.attribute (i + k))) (r.gained p) ++ s.gained (r.position p)
      = r.gainedTwice s [] p := by
  refine congrArg (· ++ _) (List.ext_getElem? fun i => ?_)
  rw [getElem?_listRedraw, Redraw.gained, insertedAttributes, List.getElem?_map, List.getElem?_map,
    Option.map_map]
  rfl

/-- A list is drawn twice in the same way if its nodes are. -/
theorem listRedraw_listRedraw_congr {r s r' s' : Nat → Redraw} {nodes : List Node}
    (same : ∀ (i : Nat) (n : Node),
      nodes[i]? = some n → (n.redraw (r i)).redraw (s i) = (n.redraw (r' i)).redraw (s' i))
    : listRedraw s (listRedraw r nodes) = listRedraw s' (listRedraw r' nodes) := by
  apply List.ext_getElem?
  intro i
  simp only [getElem?_listRedraw, Option.map_map]
  cases found : nodes[i]? with
  | none => rfl
  | some n => exact congrArg some (same i n found)

/-- Drawings that do the same in turn give the same tree, by induction on the parts. -/
theorem redraw_redraw_congr {r s r' s' : Redraw} (same : Redraw.SameTwice r s r' s') (n : Node)
    : (n.redraw r).redraw s = (n.redraw r').redraw s' := by
  induction n using partsInduction generalizing r s r' s' with
  | step n ih =>
      have part (step : Step) (m : Node) (member : (step, m) ∈ n.slots) :=
        ih step m member (same.below step)
      cases n with
      | absent | plain => rfl
      | leaf p form =>
          cases form <;> simp [redraw, Redraw.leaf, same.position, same.value, same.inserted]
      | wrap p form below =>
          have first := part (.part 0) below (by simp [slots])
          exact congrArg₂ (wrap · form) (same.position p) first
      | declarator p binding init =>
          have first := part (.part 0) binding (by simp [slots])
          have second := part (.part 1) init (by simp [slots])
          simp only [redraw]
          rw [first, second]
          exact congrArg (declarator · _ _) (same.position p)
      | conditional p test consequent alternate =>
          have first := part (.part 0) test (by simp [slots])
          have second := part (.part 1) consequent (by simp [slots])
          have third := part (.part 2) alternate (by simp [slots])
          simp only [redraw]
          rw [first, second, third]
          exact congrArg (conditional · _ _ _) (same.position p)
      | group p form parts =>
          have inside := listRedraw_listRedraw_congr fun i m found =>
            part (.part i) m (mem_slots_iff.mpr found)
          exact congrArg₂ (group · form) (same.position p) inside
      | element p name attrs children sc off =>
          have first := part (.part 0) name (by simp [slots])
          have attributes := listRedraw_listRedraw_congr fun i m found =>
            part (.attribute i) m (mem_slots_iff.mpr found)
          have below := listRedraw_listRedraw_congr fun i m found =>
            part (.child i) m (mem_slots_iff.mpr found)
          simp only [redraw]
          rw [first, below, listRedraw_append, listRedraw_append, attributes, List.append_assoc,
            List.append_assoc, gained_gained, gained_gained, same.gained, same.position,
            same.offset]

/-- Additions to a drawing are part of the drawing. -/
theorem redraw_redraw_adding (n : Node) (r : Redraw) (added : Address → List (String × String))
    : (n.redraw r).redraw (.adding added)
      = n.redraw { r with added := fun a => r.added a ++ added a } := by
  rw [← redraw_adding_nothing (n.redraw { r with added := fun a => r.added a ++ added a })]
  apply redraw_redraw_congr
  refine ⟨fun _ => rfl, fun _ => rfl, fun _ => rfl, fun _ => rfl, fun a p => ?_⟩
  simp only [Redraw.gainedTwice, Redraw.adding_added, insertedAttributes, List.map_append,
    List.map_nil, List.append_nil]
  rfl

end Node

theorem Program.redraw_redraw_adding (p : Program) (r : Redraw)
    (added : Address → List (String × String))
    : (p.redraw r).redraw (.adding added)
      = p.redraw { r with added := fun a => r.added a ++ added a } := by
  refine ext_toNode ?_ rfl
  simp only [toNode_redraw, Node.redraw_redraw_adding]

-----------------------------------------------------------------------------------------
-- The outline
-----------------------------------------------------------------------------------------

/-- The drawing that forgets places, offsets, and the values and marks of attributes. -/
def Redraw.outline : Redraw where
  position _ := {}
  value _ := none
  inserted _ := false
  offset _ := none

/-- The outline of a program: its names and shape. -/
def Program.outline (p : Program) : Program :=
  { p.redraw .outline with source := [] }

/-- A drawing that adds nothing has the same outline. -/
theorem Program.outline_redraw {r : Redraw} (plain : ∀ a, r.added a = []) (p : Program)
    : (p.redraw r).outline = p.outline := by
  have twice (n : Node) : (n.redraw r).redraw .outline = n.redraw .outline := by
    rw [← Node.redraw_adding_nothing (n.redraw .outline)]
    apply Node.redraw_redraw_congr
    refine ⟨fun _ => rfl, fun _ => rfl, fun _ => rfl, fun _ => rfl, fun a q => ?_⟩
    simp only [Redraw.gainedTwice, plain a]
    rfl
  refine ext_toNode ?_ rfl
  change ((p.redraw r).redraw .outline).toNode = (p.redraw .outline).toNode
  rw [toNode_redraw, toNode_redraw, toNode_redraw, twice]

/-- Programs of one outline have one outline when the same is added to them. -/
theorem Program.outline_redraw_adding {p q : Program} (alike : p.outline = q.outline)
    (added : Address → List (String × String))
    : (p.redraw (.adding added)).outline = (q.redraw (.adding added)).outline := by
  have twice (n : Node)
      : ((n.redraw .outline).redraw (.adding added)).redraw .outline
        = (n.redraw (.adding added)).redraw .outline := by
    rw [Node.redraw_redraw_adding]
    apply Node.redraw_redraw_congr
    exact ⟨fun _ => rfl, fun _ => rfl, fun _ => rfl, fun _ => rfl, fun _ _ => rfl⟩
  have through (p : Program)
      : (p.redraw (.adding added)).outline = (p.outline.redraw (.adding added)).outline := by
    refine ext_toNode ?_ rfl
    change ((p.redraw (.adding added)).redraw .outline).toNode
      = (((p.redraw .outline).redraw (.adding added)).redraw .outline).toNode
    simp only [toNode_redraw, twice]
  rw [through p, through q, alike]

end JsxProvenance.Ast
