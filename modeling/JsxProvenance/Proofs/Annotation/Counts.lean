import Mathlib.Algebra.BigOperators.Group.List.Basic
import JsxProvenance.Proofs.Annotation.Growth
import JsxProvenance.Proofs.Annotation.Histories

/-! The counts in a report. A run keeps the elements of a program where they are and makes their
attribute lists longer, and the number it reports is the sum of what each list has grown by.
-/

namespace JsxProvenance.Ast.Program

variable {p q : Program}

/-- The number of attributes of the node at an address. -/
def attributeCount (p : Program) (a : Address) : Nat :=
  (p.get? a).elim 0 (·.attributes.length)

theorem attributeCount_of_has {place : Place} (has : p.Has place)
    : p.attributeCount place.address = place.node.attributes.length := by
  rw [attributeCount, show p.get? place.address = some place.node from has, Option.elim_some]

/-- An element of a drawing has the attributes it had and those that are added. -/
theorem attributeCount_redraw (added : Address → List (String × String)) {place : Place}
    (member : place ∈ p.elementPlaces)
    : (p.redraw (.adding added)).attributeCount place.address
      = place.node.attributes.length + (added place.address).length := by
  obtain ⟨visited, element⟩ := List.mem_filter.mp member
  have there : (p.redraw (.adding added)).Has (place.redraw (.adding added)) :=
    Has.redraw (has_of_mem_walk visited) _
  rw [show place.address = (place.redraw (.adding added)).address from rfl,
    attributeCount_of_has there, Place.redraw, Node.length_attributes_redraw, element]
  simp [Redraw.under, Redraw.adding]

theorem attributeTotal_eq_sum (p : Program)
    : p.attributeTotal = (p.elementPlaces.map (·.node.attributes.length)).sum := by
  have same := congrArg (List.map fun n => n.attributes.length) p.map_node_elements
  rw [List.map_map] at same
  rw [attributeTotal, Node.attributeTotal, toNode, Node.elements_group, ← same]
  rfl

/-- The number of attributes that a drawing adds to the elements of a program. -/
def addedTotal (p : Program) (added : Address → List (String × String)) : Nat :=
  (p.elementPlaces.map fun place => (added place.address).length).sum

theorem attributeTotal_redraw (added : Address → List (String × String)) (p : Program)
    : (p.redraw (.adding added)).attributeTotal = p.attributeTotal + p.addedTotal added := by
  have each
      : p.elementPlaces.map (fun place => (place.redraw (.adding added)).node.attributes.length)
        = p.elementPlaces.map fun place =>
            place.node.attributes.length + (added place.address).length := by
    refine List.map_congr_left fun place member => ?_
    have has := has_of_mem_walk (List.mem_of_mem_filter member)
    rw [← attributeCount_redraw added member]
    exact (attributeCount_of_has (has.redraw _)).symm
  rw [attributeTotal_eq_sum, attributeTotal_eq_sum, elementPlaces_redraw, List.map_map]
  exact (congrArg List.sum each).trans List.sum_map_add

/-- A program has grown into another by a number of attributes: its elements are where they were,
each with as many attributes or more, and the number is the sum of what their lists have grown by.
-/
structure Grown (p q : Program) (number : Nat) : Prop where
  elements : q.elementPlaces.map (·.address) = p.elementPlaces.map (·.address)
  longer : ∀ place ∈ p.elementPlaces, place.node.attributes.length ≤ q.attributeCount place.address
  total
    : number
      = (p.elementPlaces.map fun place =>
          q.attributeCount place.address - place.node.attributes.length).sum

theorem grown_redraw (added : Address → List (String × String)) (p : Program)
    : p.Grown (p.redraw (.adding added)) (p.addedTotal added) where
  elements := by
    rw [elementPlaces_redraw, List.map_map]
    rfl
  longer place member := by
    rw [attributeCount_redraw added member]
    exact Nat.le_add_right _ _
  total := by
    refine congrArg List.sum (List.map_congr_left fun place member => ?_)
    rw [attributeCount_redraw added member, Nat.add_sub_cancel_left]

/-- A run that returns draws the program with as many additions as it reports. -/
theorem annotate_addedTotal {settings : Settings} {path : Option String} {report : Report}
    (h : p.annotate settings path = .ok (q, report))
    : ∃ added, q = p.redraw (.adding added) ∧ report.attributesAdded = p.addedTotal added := by
  obtain ⟨aliases, visited, _⟩ := annotate_visits h
  have grown := p.attributeTotal_annotateVisits { settings, aliases }
    (visits (discover p path settings.incompatiblePackages))
  have drawn := p.annotateVisits_eq { settings, aliases }
    (visits (discover p path settings.incompatiblePackages))
  rw [visited] at grown drawn
  refine ⟨_, drawn, ?_⟩
  rw [drawn, attributeTotal_redraw] at grown
  exact (Nat.add_left_cancel grown).symm

/-- The counts of a run that returns are exact: the number it reports is that of the attributes the
program has grown by, none if it was skipped, and else it names the discovered components in order.
-/
theorem annotate_grown {settings : Settings} {path : Option String} {report : Report}
    (h : p.annotate settings path = .ok (q, report))
    : p.Grown q report.attributesAdded
      ∧ (report.skipped = true → report.attributesAdded = 0)
      ∧ (report.skipped = false
        → report.components
          = (discover p path settings.incompatiblePackages).map (·.name)) := by
  obtain ⟨added, drawn, total⟩ := annotate_addedTotal h
  refine ⟨?_, ?_⟩
  · rw [drawn, total]
    exact grown_redraw added p
  · refine ⟨?_, fun _ => (annotate_reports h).1⟩
    rcases annotate_cases h with ⟨_, _, rfl⟩ | ⟨_, _, _, _, rfl⟩
    · exact fun _ => rfl
    · nofun

end JsxProvenance.Ast.Program
