import Mathlib.Algebra.GroupWithZero.Nat
import JsxProvenance.Proofs.Annotation.Visits
import JsxProvenance.Proofs.Tree.Elements

/-! How many attributes annotation adds. What a visit counts is the growth of the attribute lists of
all elements, so the trees before and after a run decide the number that it reports.
-/

namespace JsxProvenance

open Ast

namespace Ast.Node

/-- The number of attributes of all elements of a tree. -/
def attributeTotal (n : Node) : Nat :=
  (n.elements.map (·.attributes.length)).sum

/-- The number of attributes of all elements of several trees. -/
def listAttributeTotal (nodes : List Node) : Nat :=
  (nodes.map attributeTotal).sum

theorem sum_flatMap_elements (nodes : List Node)
    : ((nodes.flatMap elements).map (·.attributes.length)).sum = listAttributeTotal nodes := by
  induction nodes with
  | nil => rfl
  | cons n rest ih =>
      rw [List.flatMap_cons, List.map_append, List.sum_append, ih]
      rfl

/-- The total of a node is its own number of attributes and the totals of its parts. -/
theorem attributeTotal_eq (n : Node)
    : n.attributeTotal = n.attributes.length + listAttributeTotal (n.slots.map (·.2)) := by
  rw [attributeTotal, elements_eq, List.map_append, List.sum_append, sum_flatMap_elements]
  cases n <;> rfl

theorem attributeTotal_element (p : Position) (name : Node) (attrs children : List Node) (sc : Bool)
    (off : Option Nat)
    : (element p name attrs children sc off).attributeTotal
      = attrs.length
        + (name.attributeTotal + (listAttributeTotal attrs + listAttributeTotal children)) := by
  rw [attributeTotal_eq, slots, List.map_append, List.map_cons, map_snd_mapIdx, map_snd_mapIdx,
    listAttributeTotal, List.map_append, List.map_cons, List.sum_append, List.sum_cons,
    Nat.add_assoc name.attributeTotal]
  rfl

theorem attributeTotal_group (p : Position) (form : Group) (parts : List Node)
    : (group p form parts).attributeTotal = listAttributeTotal parts := by
  rw [attributeTotal, elements_group, sum_flatMap_elements]

theorem listAttributeTotal_append (first second : List Node)
    : listAttributeTotal (first ++ second)
      = listAttributeTotal first + listAttributeTotal second := by
  rw [listAttributeTotal, List.map_append, List.sum_append]
  rfl

theorem attributeTotal_of_isMark {n : Node} (mark : n.isMark = true) : n.attributeTotal = 0 := by
  obtain ⟨p, form, rfl⟩ := exists_leaf_of_isMark mark
  rw [attributeTotal, elements_leaf]
  rfl

theorem listAttributeTotal_insertedAttributes (p : Position) (additions : List (String × String))
    : listAttributeTotal (insertedAttributes p additions) = 0 := by
  induction additions with
  | nil => rfl
  | cons addition rest ih =>
      rw [insertedAttributes, List.map_cons, listAttributeTotal, List.map_cons, List.sum_cons,
        attributeTotal_of_isMark rfl, Nat.zero_add]
      exact ih

/-- A drawing makes the attribute list of an element longer by what it gains there, and no other. -/
theorem length_attributes_redraw (r : Redraw) (n : Node)
    : (n.redraw r).attributes.length
      = n.attributes.length + if n.isElement then (r.added []).length else 0 := by
  cases n with
  | element p name attrs children sc off =>
      simp [redraw, attributes, listRedraw_eq_mapIdx, Redraw.gained, insertedAttributes, isElement]
  | _ => rfl

/-- The total of a drawing: what a node gains counts once, and each part as it is drawn. -/
theorem attributeTotal_redraw (r : Redraw) (n : Node)
    : (n.redraw r).attributeTotal
      = n.attributes.length + (if n.isElement then (r.added []).length else 0)
        + (n.slots.map fun slot => (slot.2.redraw (r.below slot.1)).attributeTotal).sum := by
  -- attributes have no total of their own, so gained ones can be left out of the parts
  let g : Step × Node → List Nat := fun slot => if slot.2.isMark then [] else [slot.2.attributeTotal]
  have gathered {α : Type} (slots : List α) (f : α → Step × Node)
      : (slots.map fun slot => (f slot).2.attributeTotal).sum
        = (slots.flatMap fun slot => g (f slot)).sum := by
    induction slots with
    | nil => rfl
    | cons slot rest ih =>
        rw [List.map_cons, List.sum_cons, List.flatMap_cons, List.sum_append, ih]
        congr 1
        by_cases mark : (f slot).2.isMark = true
        · rw [attributeTotal_of_isMark mark]
          simp [g, mark]
        · simp [g, mark]
  have blind (slot : Step × Node) (mark : slot.2.isMark = true) : g slot = [] := if_pos mark
  rw [attributeTotal_eq, length_attributes_redraw, listAttributeTotal, List.map_map]
  congr 1
  rw [gathered n.slots fun slot => (slot.1, slot.2.redraw (r.below slot.1)),
    ← flatMap_slots_redraw r n g blind]
  exact gathered (n.redraw r).slots id

/-- A sum over slots of which one is changed, by induction over the slots. -/
theorem sum_slots_changed (f g : Node → Nat) {slots : List (Step × Node)} {s : Step}
    {part : Node} (apart : (slots.map (·.1)).Nodup) (member : (s, part) ∈ slots)
    : (slots.map fun slot => if s = slot.1 then g slot.2 else f slot.2).sum + f part
      = (slots.map fun slot => f slot.2).sum + g part := by
  induction slots with
  | nil => cases member
  | cons slot rest ih =>
      rw [List.map_cons, List.nodup_cons] at apart
      simp only [List.map_cons, List.sum_cons]
      rcases List.mem_cons.mp member with rfl | later
      · have others : (rest.map fun slot => if s = slot.1 then g slot.2 else f slot.2)
            = rest.map fun slot => f slot.2 := by
          refine List.map_congr_left fun slot among => if_neg ?_
          rintro rfl
          exact apart.1 (List.mem_map_of_mem (f := (·.1)) among)
        rw [others, if_pos rfl]
        dsimp only
        omega
      · have other : s ≠ slot.1 := by
          rintro rfl
          exact apart.1 (List.mem_map_of_mem (f := (·.1)) later)
        have total := ih apart.2 later
        rw [if_neg other]
        omega

/-- A tree grows by as much as its node at the address where attributes are added, by induction on
the address.
-/
theorem attributeTotal_redraw_addedUnder {n node : Node} {a : Address}
    (found : n.get? a = some node) (added : Address → List (String × String))
    : (n.redraw (.adding (addedUnder added a))).attributeTotal + node.attributeTotal
      = n.attributeTotal + (node.redraw (.adding added)).attributeTotal := by
  induction a generalizing n with
  | nil =>
      obtain rfl := Option.some.inj found
      exact Nat.add_comm _ _
  | cons s rest ih =>
      obtain ⟨part, stepped, reached⟩ := Option.bind_eq_some_iff.mp found
      have below := ih reached
      have parts : (n.slots.map fun slot =>
            (slot.2.redraw ((Redraw.adding (addedUnder added (s :: rest))).below
              slot.1)).attributeTotal)
          = n.slots.map fun slot =>
              if s = slot.1 then (slot.2.redraw (.adding (addedUnder added rest))).attributeTotal
              else slot.2.attributeTotal := by
        refine List.map_congr_left fun slot _ => ?_
        rw [addedUnder]
        split
        · next same => rw [← same, Redraw.below_adding_addedBelow]
        · next other =>
            rw [Redraw.below_adding_addedBelow_of_ne other, redraw_adding_nothing]
      have here := sum_slots_changed attributeTotal
        (fun part => (part.redraw (.adding (addedUnder added rest))).attributeTotal) n.nodup_slots
        (mem_slots_iff.mpr stepped)
      have untouched : (Redraw.adding (addedUnder added (s :: rest))).added [] = [] := rfl
      have whole : n.attributeTotal
          = n.attributes.length + (n.slots.map fun slot => slot.2.attributeTotal).sum := by
        rw [attributeTotal_eq, listAttributeTotal, List.map_map]
        rfl
      rw [attributeTotal_redraw, parts, untouched, whole, List.length_nil, ite_self]
      omega

end Ast.Node

-----------------------------------------------------------------------------------------
-- The count of a descent
-----------------------------------------------------------------------------------------

namespace Descent

variable {σ : Type} {d : Descent σ}

theorem listAttributeTotal_listAdded (s : σ) {nodes : List Node}
    (each : ∀ (i : Nat) (n : Node) (s : σ),
      nodes[i]? = some n
      → (n.redraw (.adding (d.added s n))).attributeTotal = n.attributeTotal + d.count s n)
    : Node.listAttributeTotal (Node.listRedraw (d.listAdded (some s) nodes) nodes)
      = Node.listAttributeTotal nodes + d.listCount s nodes := by
  induction nodes generalizing s with
  | nil => rfl
  | cons n later ih =>
      have first := each 0 n (d.child s n) rfl
      have others := ih (d.rest s n) fun i => each (i + 1)
      simp only [Node.listAttributeTotal, Node.listRedraw, List.map_cons, List.sum_cons, listCount]
        at others ⊢
      have rest : (fun i => d.listAdded (some s) (n :: later) (i + 1))
          = d.listAdded (some (d.rest s n)) later := rfl
      have here : d.listAdded (some s) (n :: later) 0 = .adding (d.added (d.child s n) n) := rfl
      rw [rest, here, first, others]
      omega

/-- The children that a descent goes on to grow by what it counts, all others not at all. -/
theorem listAttributeTotal_elim (s : Option σ) (nodes : List Node)
    (each : ∀ (i : Nat) (n : Node) (s : σ),
      nodes[i]? = some n
      → (n.redraw (.adding (d.added s n))).attributeTotal = n.attributeTotal + d.count s n)
    : Node.listAttributeTotal (Node.listRedraw (d.listAdded s nodes) nodes)
      = Node.listAttributeTotal nodes + s.elim 0 fun inside => d.listCount inside nodes := by
  cases s with
  | none => rw [listRedraw_listAdded_none, Option.elim_none, Nat.add_zero]
  | some inside => exact listAttributeTotal_listAdded inside each

/-- A tree grows by what its descent counts, by induction on the parts. -/
theorem attributeTotal_added (s : σ) (n : Node)
    : (n.redraw (.adding (d.added s n))).attributeTotal = n.attributeTotal + d.count s n := by
  induction n using Node.partsInduction generalizing s with
  | step n ih =>
      cases n with
      | element p name attrs children sc off =>
          have inside := listAttributeTotal_elim
            (d.enter s (.element p name attrs children sc off)) children
            fun i n s found => ih (.child i) n (Node.mem_slots_iff.mpr found) s
          rw [redraw_element, Node.attributeTotal_element, Node.attributeTotal_element, count,
            Node.listAttributeTotal_append, Node.listAttributeTotal_insertedAttributes, inside,
            List.length_append, Node.insertedAttributes, List.length_map]
          omega
      | group p form parts =>
          cases form with
          | jsxFragment =>
              rw [redraw_fragment, Node.attributeTotal_group, Node.attributeTotal_group, count]
              exact listAttributeTotal_elim _ parts
                fun i n s found => ih (.part i) n (Node.mem_slots_iff.mpr found) s
          | _ => rw [redraw_of_not_jsx s rfl, count_of_not_jsx s rfl, Nat.add_zero]
      | _ => rw [redraw_of_not_jsx s rfl, count_of_not_jsx s rfl, Nat.add_zero]

end Descent

-----------------------------------------------------------------------------------------
-- The growth of a program
-----------------------------------------------------------------------------------------

namespace Ast.Program

/-- The number of attributes of all elements of a program. -/
def attributeTotal (p : Program) : Nat :=
  p.toNode.attributeTotal

/-- Annotation from a root counts the growth of the program. -/
theorem attributeTotal_annotateAt (c : Context) (p : Program) (a : Address)
    : (p.annotateAt c a).1.attributeTotal = p.attributeTotal + (p.annotateAt c a).2 := by
  rw [annotateAt_eq]
  cases found : p.get? a with
  | none =>
      have nothing : p.addedAt c a = fun _ => [] := by rw [addedAt, found]
      rw [nothing, redraw_adding_nothing, countAt, found]
      rfl
  | some root =>
      have grown := Node.attributeTotal_redraw_addedUnder found (c.pass.added root)
      have counted : (root.redraw (.adding (c.pass.added root))).attributeTotal
          = root.attributeTotal + c.pass.count root :=
        Descent.attributeTotal_added c.pass.start root
      rw [addedAt_of_get? found, countAt_of_get? found, attributeTotal, attributeTotal, toNode_redraw]
      omega

/-- Visits count the growth of the program, by induction over the visits. -/
theorem attributeTotal_annotateVisits (c : Context) (p : Program)
    (visited : List (Component × Place))
    : (p.annotateVisits c visited).1.attributeTotal
      = p.attributeTotal + (p.annotateVisits c visited).2 := by
  induction visited generalizing p with
  | nil => rfl
  | cons visit rest ih =>
      rw [annotateVisits, ih, attributeTotal_annotateAt, Nat.add_assoc]

end Ast.Program
end JsxProvenance
