import Mathlib.Data.List.Basic
import JsxProvenance.Ast.TagName
import JsxProvenance.Proofs.Tree.Walk

/-! Trees that are drawn anew. A drawing keeps the shape of a tree and all its names; it can change
positions, insert offsets, and the values and marks of attributes, and it can give elements more
attributes at the end of their lists. Annotation, forgetting, and reading the text again are all
drawings, so what cannot see a drawing is the same before and after each of them.
-/

namespace JsxProvenance.Ast

/-- How to draw a tree anew. Attributes are added by the address of the element that gains them. -/
structure Redraw where
  position : Position → Position := id
  value : Option String → Option String := id
  inserted : Bool → Bool := id
  offset : Option Nat → Option Nat := id
  added : Address → List (String × String) := fun _ => []

namespace Redraw

def below (r : Redraw) (s : Step) : Redraw :=
  { r with added := fun a => r.added (s :: a) }

def under (r : Redraw) (a : Address) : Redraw :=
  { r with added := fun b => r.added (a ++ b) }

/-- The drawing that changes nothing but adds attributes. -/
def adding (added : Address → List (String × String)) : Redraw :=
  { added }

@[simp]
theorem adding_position (added : Address → List (String × String)) (p : Position)
    : (adding added).position p = p :=
  rfl

@[simp]
theorem adding_offset (added : Address → List (String × String)) (o : Option Nat)
    : (adding added).offset o = o :=
  rfl

@[simp]
theorem adding_added (added : Address → List (String × String)) : (adding added).added = added :=
  rfl

def leaf (r : Redraw) : Leaf → Leaf
  | .jsxAttribute name value inserted => .jsxAttribute name (r.value value) (r.inserted inserted)
  | form => form

/-- The attributes that an element at a position gains at the end of its list. -/
def gained (r : Redraw) (p : Position) : List Node :=
  Node.insertedAttributes (r.position p) (r.added [])

end Redraw

mutual

/-- Draws a tree anew. -/
def Node.redraw (r : Redraw) : Node → Node
  | .absent => .absent
  | .plain text => .plain text
  | .leaf p form => .leaf (r.position p) (r.leaf form)
  | .wrap p form part => .wrap (r.position p) form (part.redraw (r.below (.part 0)))
  | .declarator p binding init =>
      .declarator (r.position p) (binding.redraw (r.below (.part 0)))
        (init.redraw (r.below (.part 1)))
  | .conditional p test consequent alternate =>
      .conditional (r.position p) (test.redraw (r.below (.part 0)))
        (consequent.redraw (r.below (.part 1))) (alternate.redraw (r.below (.part 2)))
  | .group p form parts =>
      .group (r.position p) form (Node.listRedraw (fun i => r.below (.part i)) parts)
  | .element p name attrs children sc off =>
      .element (r.position p) (name.redraw (r.below (.part 0)))
        (Node.listRedraw (fun i => r.below (.attribute i)) attrs ++ r.gained p)
        (Node.listRedraw (fun i => r.below (.child i)) children) sc (r.offset off)

/-- Draws the nodes of a list anew, each in the way of its number. -/
def Node.listRedraw (r : Nat → Redraw) : List Node → List Node
  | [] => []
  | n :: rest => n.redraw (r 0) :: Node.listRedraw (fun i => r (i + 1)) rest

end

/-- Draws a program anew. Its source stays. -/
def Program.redraw (r : Redraw) (p : Program) : Program :=
  { p with
    position := r.position p.position
    body := Node.listRedraw (fun i => r.below (.part i)) p.body
  }

/-- Draws the node of a place anew; the addresses of the drawing start at the root. -/
def Place.redraw (r : Redraw) (p : Place) : Place :=
  ⟨p.address, p.node.redraw (r.under p.address)⟩

theorem Node.listRedraw_eq_mapIdx (r : Nat → Redraw) (nodes : List Node)
    : listRedraw r nodes = nodes.mapIdx fun i n => n.redraw (r i) := by
  induction nodes generalizing r with
  | nil => rfl
  | cons n rest ih => rw [listRedraw, List.mapIdx_cons, ih]

@[simp]
theorem Node.getElem?_listRedraw (r : Nat → Redraw) (nodes : List Node) (i : Nat)
    : (listRedraw r nodes)[i]? = nodes[i]?.map (·.redraw (r i)) := by
  rw [listRedraw_eq_mapIdx, List.getElem?_mapIdx]

theorem Program.toNode_redraw (r : Redraw) (p : Program)
    : (p.redraw r).toNode = p.toNode.redraw r := by
  rw [toNode, toNode, Node.redraw, redraw]

theorem Program.toPlace_redraw (r : Redraw) (p : Program)
    : (p.redraw r).toPlace = p.toPlace.redraw r := by
  simp only [toPlace, toNode_redraw, Place.redraw, Redraw.under, List.nil_append]

-----------------------------------------------------------------------------------------
-- What no drawing changes
-----------------------------------------------------------------------------------------

namespace Node

def isElement : Node → Bool
  | element .. => true
  | _ => false

def isMark : Node → Bool
  | leaf _ (.jsxAttribute ..) => true
  | _ => false

theorem exists_leaf_of_isMark {n : Node} (mark : n.isMark = true) : ∃ p form, n = leaf p form := by
  cases n with
  | leaf p form => exact ⟨p, form, rfl⟩
  | _ => cases mark

@[simp]
theorem isSyntax_redraw (r : Redraw) (n : Node) : (n.redraw r).isSyntax = n.isSyntax := by
  cases n <;> rfl

@[simp]
theorem isElement_redraw (r : Redraw) (n : Node) : (n.redraw r).isElement = n.isElement := by
  cases n <;> rfl

@[simp]
theorem isJsx_redraw (r : Redraw) (n : Node) : (n.redraw r).isJsx = n.isJsx := by
  cases n with
  | group p form parts => cases form <;> rfl
  | _ => rfl

@[simp]
theorem isReturn_redraw (r : Redraw) (n : Node) : (n.redraw r).isReturn = n.isReturn := by
  cases n with
  | wrap p form part => cases form <;> rfl
  | _ => rfl

@[simp]
theorem isMethod_redraw (r : Redraw) (name : String) (n : Node)
    : (n.redraw r).isMethod name = n.isMethod name := by
  cases n with
  | wrap p form part => cases form <;> rfl
  | _ => rfl

@[simp]
theorem isAttribute_redraw (r : Redraw) (name : String) (n : Node)
    : (n.redraw r).isAttribute name = n.isAttribute name := by
  cases n with
  | leaf p form => cases form <;> rfl
  | _ => rfl

/-- What stands before a dot keeps its text, by induction on the parts. -/
@[simp]
theorem objectName_redraw (r : Redraw) (n : Node) : (n.redraw r).objectName = n.objectName := by
  induction n using partsInduction generalizing r with
  | step n ih =>
      cases n with
      | leaf p form => cases form <;> rfl
      | wrap p form part =>
          cases form with
          | jsxMemberExpression property =>
              rw [redraw, objectName, objectName, ih (.part 0) part (by simp [slots])]
          | _ => rfl
      | _ => rfl

@[simp]
theorem tagName_redraw (r : Redraw) (n : Node) : (n.redraw r).tagName = n.tagName := by
  cases n with
  | leaf p form => cases form <;> rfl
  | wrap p form part =>
      cases form with
      | jsxMemberExpression property => rw [redraw, tagName, tagName, objectName_redraw]
      | _ => rfl
  | _ => rfl

@[simp]
theorem elementName_redraw (r : Redraw) (n : Node)
    : (n.redraw r).elementName = n.elementName := by
  cases n with
  | element p name attrs children sc off => rw [redraw, elementName, elementName, tagName_redraw]
  | _ => rfl

/-- A drawing that adds nothing and changes nothing is the tree, by induction on the parts. -/
theorem redraw_adding_nothing (n : Node) : n.redraw (.adding fun _ => []) = n := by
  have list (nodes : List Node) (same : ∀ part ∈ nodes, part.redraw (.adding fun _ => []) = part)
      : listRedraw (fun _ => .adding fun _ => []) nodes = nodes := by
    apply List.ext_getElem?
    intro i
    rw [getElem?_listRedraw]
    cases found : nodes[i]? with
    | none => rfl
    | some part => exact congrArg some (same part (List.mem_of_getElem? found))
  induction n using partsInduction with
  | step n ih =>
      cases n with
      | absent | plain => rfl
      | leaf p form => cases form <;> rfl
      | wrap p form part => exact congrArg (wrap p form) (ih (.part 0) part (by simp [slots]))
      | declarator p binding init =>
          exact congrArg₂ (declarator p) (ih (.part 0) binding (by simp [slots]))
            (ih (.part 1) init (by simp [slots]))
      | conditional p test consequent alternate =>
          have first := ih (.part 0) test (by simp [slots])
          have second := ih (.part 1) consequent (by simp [slots])
          have third := ih (.part 2) alternate (by simp [slots])
          change conditional p (test.redraw (.adding fun _ => []))
              (consequent.redraw (.adding fun _ => [])) (alternate.redraw (.adding fun _ => []))
            = conditional p test consequent alternate
          rw [first, second, third]
      | group p form parts =>
          refine congrArg (group p form) (list parts fun part member => ?_)
          obtain ⟨i, found⟩ := List.getElem?_of_mem member
          exact ih (.part i) part (mem_slots_iff.mpr found)
      | element p name attrs children sc off =>
          have names := ih (.part 0) name (by simp [slots])
          have attributes := list attrs fun part member => by
            obtain ⟨i, found⟩ := List.getElem?_of_mem member
            exact ih (.attribute i) part (mem_slots_iff.mpr found)
          have below := list children fun part member => by
            obtain ⟨i, found⟩ := List.getElem?_of_mem member
            exact ih (.child i) part (mem_slots_iff.mpr found)
          change element p (name.redraw (.adding fun _ => []))
              (listRedraw (fun _ => .adding fun _ => []) attrs ++ [])
              (listRedraw (fun _ => .adding fun _ => []) children) sc off
            = element p name attrs children sc off
          rw [names, attributes, below, List.append_nil]

theorem listRedraw_adding_nothing (nodes : List Node)
    : listRedraw (fun _ => .adding fun _ => []) nodes = nodes := by
  apply List.ext_getElem?
  intro i
  rw [getElem?_listRedraw]
  cases nodes[i]? with
  | none => rfl
  | some part => exact congrArg some part.redraw_adding_nothing

theorem filterMap_listRedraw {α : Type} {r : Nat → Redraw} {f g : Node → Option α}
    (same : ∀ i n, f (n.redraw (r i)) = g n) (nodes : List Node)
    : (listRedraw r nodes).filterMap f = nodes.filterMap g := by
  induction nodes generalizing r with
  | nil => rfl
  | cons n rest ih =>
      rw [listRedraw, List.filterMap_cons, List.filterMap_cons, same, ih fun i => same (i + 1)]

/-- What is added to a node that is no element is not seen. -/
theorem redraw_adding_of_not_element {n : Node} (plain : n.isElement = false)
    {added : Address → List (String × String)} (nothing : ∀ step rest, added (step :: rest) = [])
    : n.redraw (.adding added) = n := by
  have same : n.redraw (.adding added) = n.redraw (.adding fun _ => []) := by
    cases n with
    | element => cases plain
    | _ => simp only [redraw, Redraw.below, Redraw.adding, nothing] <;> rfl
  rw [same, redraw_adding_nothing]

-----------------------------------------------------------------------------------------
-- The parts of a drawing
-----------------------------------------------------------------------------------------

theorem isMark_of_mem_gained {r : Redraw} {p : Position} {n : Node} (member : n ∈ r.gained p)
    : n.isMark = true := by
  obtain ⟨addition, _, rfl⟩ := List.mem_map.mp member
  rfl

theorem mapIdx_listRedraw (r : Redraw) (step : Nat → Step) (nodes : List Node)
    : (listRedraw (fun i => r.below (step i)) nodes).mapIdx (fun i n => (step i, n))
      = (nodes.mapIdx fun i n => (step i, n)).map
          fun slot => (slot.1, slot.2.redraw (r.below slot.1)) := by
  apply List.ext_getElem?
  intro i
  simp [Option.map_map, Function.comp_def]

/-- What is gathered from the slots of a drawing, if attributes give nothing, is gathered from the
slots of the tree. Witness: only gained attributes have slots of their own.
-/
theorem flatMap_slots_redraw {α : Type} (r : Redraw) (n : Node) (g : Step × Node → List α)
    (blind : ∀ slot, slot.2.isMark = true → g slot = [])
    : (n.redraw r).slots.flatMap g
      = n.slots.flatMap fun slot => g (slot.1, slot.2.redraw (r.below slot.1)) := by
  cases n with
  | absent | plain | leaf => rfl
  | wrap | declarator | conditional => rfl
  | group p form parts =>
      rw [redraw, slots, slots, mapIdx_listRedraw, List.flatMap_map]
  | element p name attrs children sc off =>
      have gained (k : Nat)
          : ((r.gained p).mapIdx fun i n => (Step.attribute (i + k), n)).flatMap g = [] := by
        apply List.flatMap_eq_nil_iff.mpr
        intro slot member
        obtain ⟨i, inside, rfl⟩ := List.mem_mapIdx.mp member
        exact blind _ (isMark_of_mem_gained (List.getElem_mem inside))
      simp only [redraw, slots, List.mapIdx_append, mapIdx_listRedraw, List.cons_append,
        List.flatMap_cons, List.flatMap_append, List.flatMap_map, gained, List.append_nil]

/-- A step leads to the drawing of the part, or else to an attribute that the drawing adds. -/
theorem step?_redraw {r : Redraw} {n found : Node} {s : Step}
    (h : (n.redraw r).step? s = some found)
    : (∃ part, n.step? s = some part ∧ found = part.redraw (r.below s))
      ∨ found.isMark = true := by
  by_cases mark : found.isMark = true
  · exact Or.inr mark
  -- the slots without attributes are those of the tree
  let g : Step × Node → List (Step × Node) := fun slot => if slot.2.isMark then [] else [slot]
  have slot : (s, found) ∈ (n.redraw r).slots.flatMap g :=
    List.mem_flatMap.mpr ⟨(s, found), mem_slots_iff.mpr h, by simp [g, mark]⟩
  rw [flatMap_slots_redraw r n g (by simp +contextual [g])] at slot
  obtain ⟨⟨s', part⟩, member, same⟩ := List.mem_flatMap.mp slot
  have same : (s, found) = (s', part.redraw (r.below s')) := by
    by_cases drawn : (part.redraw (r.below s')).isMark = true
    · simp [g, drawn] at same
    · simpa [g, drawn] using same
  obtain ⟨rfl, rfl⟩ := Prod.mk.inj same
  exact Or.inl ⟨part, mem_slots_iff.mp member, rfl⟩

/-- An address leads to the drawing of the node there, or else to an attribute that the drawing
adds, by induction on the address.
-/
theorem get?_redraw {r : Redraw} {n found : Node} {a : Address}
    (h : (n.redraw r).get? a = some found)
    : (∃ node, n.get? a = some node ∧ found = node.redraw (r.under a))
      ∨ found.isMark = true := by
  induction a generalizing n r with
  | nil => exact Or.inl ⟨n, rfl, (Option.some.inj h).symm⟩
  | cons s rest ih =>
      obtain ⟨next, stepped, reached⟩ := Option.bind_eq_some_iff.mp h
      rcases step?_redraw stepped with ⟨part, found, rfl⟩ | mark
      · rcases ih reached with ⟨node, there, rfl⟩ | mark
        · exact Or.inl ⟨node, by rw [get?, found]; exact there, rfl⟩
        · exact Or.inr mark
      · -- nothing lies below an attribute
        obtain ⟨p, form, rfl⟩ := exists_leaf_of_isMark mark
        cases rest with
        | nil => exact Or.inr (Option.some.inj reached ▸ mark)
        | cons t more => simp [get?, step?] at reached

/-- A drawing has each part of the tree at the same step, by cases on the form and the step. -/
theorem step?_redraw_of_step? {n part : Node} {s : Step} (r : Redraw) (h : n.step? s = some part)
    : (n.redraw r).step? s = some (part.redraw (r.below s)) := by
  cases n with
  | absent | plain | leaf => simp [step?] at h
  | wrap | declarator | conditional =>
      rcases s with (_ | _ | _ | _) | _ | _ <;> simp [step?] at h <;> subst h <;> rfl
  | group p form parts =>
      cases s with
      | part i => simpa [redraw, step?] using ⟨part, h, rfl⟩
      | _ => simp [step?] at h
  | element p name attrs children sc off =>
      rcases s with (_ | _) | i | i
      · simp only [step?, Option.some.injEq] at h
        subst h
        rfl
      · simp [step?] at h
      · have inside : attrs[i]? = some part := h
        rw [redraw, step?, List.getElem?_append_left, getElem?_listRedraw, inside]
        · rfl
        · rw [listRedraw_eq_mapIdx, List.length_mapIdx]
          exact (List.getElem?_eq_some_iff.mp inside).1
      · simpa [redraw, step?] using ⟨part, h, rfl⟩

/-- A drawing has each node of the tree at the same address, by induction on the address. -/
theorem get?_redraw_of_get? {n node : Node} {a : Address} (r : Redraw) (h : n.get? a = some node)
    : (n.redraw r).get? a = some (node.redraw (r.under a)) := by
  induction a generalizing n r with
  | nil => exact congrArg _ (congrArg (redraw r) (Option.some.inj h))
  | cons s rest ih =>
      obtain ⟨next, stepped, reached⟩ := Option.bind_eq_some_iff.mp h
      rw [get?, step?_redraw_of_step? r stepped, Option.bind_some]
      exact ih (r.below s) reached

theorem step?_part_redraw (r : Redraw) (n : Node) (i : Nat)
    : (n.redraw r).step? (.part i) = (n.step? (.part i)).map (·.redraw (r.below (.part i))) := by
  cases n with
  | absent | plain | leaf => rfl
  | wrap | declarator | conditional | element => rcases i with _ | _ | _ | _ <;> rfl
  | group p form parts => simp [redraw, step?]

end Node

namespace Place

@[simp]
theorem part_redraw (r : Redraw) (p : Place) (i : Nat)
    : (p.redraw r).part i = (p.part i).redraw r := by
  simp only [part, redraw, Node.step?_part_redraw, mk.injEq, true_and]
  cases p.node.step? (.part i) with
  | none => rfl
  | some part =>
      simp only [Option.map_some, Option.getD_some, Redraw.under, Redraw.below,
        List.append_assoc, List.singleton_append]

/-- Only elements gain parts, so the slots of any other group are drawn one by one. -/
theorem slots_redraw_group (r : Redraw) (a : Address) (p : Position) (form : Group)
    (parts : List Node)
    : (redraw r ⟨a, .group p form parts⟩).slots
      = (slots ⟨a, .group p form parts⟩).map (redraw r) := by
  apply List.ext_getElem?
  intro i
  simp only [slots, redraw, Node.redraw, Node.slots, List.map_map]
  cases found : parts[i]? <;> simp [found, redraw, Redraw.under, Redraw.below]

/-- The slots of a drawing that are no gained attributes are the drawings of the slots. -/
theorem flatMap_slots_redraw {α : Type} (r : Redraw) (p : Place) (g : Place → List α)
    (blind : ∀ q : Place, q.node.isMark = true → g q = [])
    : (p.redraw r).slots.flatMap g = p.slots.flatMap fun q => g (q.redraw r) := by
  simp only [slots, List.flatMap_map]
  rw [redraw, Node.flatMap_slots_redraw _ _ _ fun slot mark => blind _ mark]
  simp only [redraw, Redraw.under, Redraw.below, List.append_assoc, List.singleton_append]

/-- What is gathered from the children of a drawing, if attributes give nothing, is gathered from
the children of the place.
-/
theorem flatMap_children_redraw {α : Type} (r : Redraw) (p : Place) (g : Place → List α)
    (blind : ∀ q : Place, q.node.isMark = true → g q = [])
    : (p.redraw r).children.flatMap g = p.children.flatMap fun q => g (q.redraw r) := by
  have filtered (ps : List Place) (h : Place → List α)
      : (ps.filter (·.node.isSyntax)).flatMap h
        = ps.flatMap fun q => if q.node.isSyntax then h q else [] := by
    induction ps with
    | nil => rfl
    | cons q rest ih => cases hq : q.node.isSyntax <;> simp [hq, ih]
  rw [children, children, filtered, filtered, flatMap_slots_redraw]
  · simp only [redraw, Node.isSyntax_redraw]
  · intro q mark
    rw [blind q mark, ite_self]

/-- What is gathered from the walk of a drawing, if attributes give nothing, is gathered from the
walk of the place, by induction on the children.
-/
theorem flatMap_walk_redraw {α : Type} (r : Redraw) (p : Place) (g : Place → List α)
    (blind : ∀ q : Place, q.node.isMark = true → g q = [])
    : (p.redraw r).walk.flatMap g = p.walk.flatMap fun q => g (q.redraw r) := by
  -- an attribute has no parts, so its walk is itself
  have mark_walk (q : Place) (mark : q.node.isMark = true) : q.walk.flatMap g = [] := by
    have alone : q.children = [] := by
      obtain ⟨a, n⟩ := q
      obtain ⟨p, form, rfl⟩ := Node.exists_leaf_of_isMark mark
      rfl
    rw [walk_eq, alone, List.flatMap_nil, List.flatMap_cons, blind q mark, List.flatMap_nil]
    rfl
  induction p using childrenInduction with
  | step p ih =>
      rw [walk_eq, walk_eq, List.flatMap_cons, List.flatMap_cons, List.flatMap_assoc,
        List.flatMap_assoc, flatMap_children_redraw r p _ mark_walk]
      exact congrArg _ (List.flatMap_congr fun child member => ih child member)

end Place

/-- What is gathered from the walk of a program, if attributes give nothing, is gathered from each
place as it is drawn anew.
-/
theorem Program.flatMap_walk_redraw {α : Type} (r : Redraw) (p : Program) (g : Place → List α)
    (blind : ∀ q : Place, q.node.isMark = true → g q = [])
    : (p.redraw r).walk.flatMap g = p.walk.flatMap fun q => g (q.redraw r) := by
  rw [walk, walk, toPlace_redraw, Place.flatMap_walk_redraw r _ g blind]

theorem Program.ext_toNode {p q : Program} (tree : p.toNode = q.toNode) (source : p.source = q.source)
    : p = q := by
  cases p
  cases q
  cases tree
  cases source
  rfl

theorem Program.redraw_adding_nothing (p : Program) : p.redraw (.adding fun _ => []) = p :=
  ext_toNode (by rw [toNode_redraw, Node.redraw_adding_nothing]) rfl

end JsxProvenance.Ast
