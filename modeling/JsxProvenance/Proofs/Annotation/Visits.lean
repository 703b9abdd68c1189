import Mathlib.Data.List.Induction
import JsxProvenance.Proofs.Annotation.Gains
import JsxProvenance.Proofs.Annotation.Outline

/-! Annotation as a sequence of visits, each to one root under the name of one component. A run is a
drawing of the program, and what it adds at an address is gathered visit by visit.
-/

namespace JsxProvenance

open Ast

/-- The roots to annotate from, each with its component, in order. -/
def visits (cs : List Component) : List (Component × Place) :=
  cs.flatMap fun component => component.roots.map fun root => (component, root)

namespace Ast.Program

/-- Annotates along visits in turn, each under the name of its component. -/
def annotateVisits (c : Context) (p : Program) : List (Component × Place) → Program × Nat
  | [] => (p, 0)
  | (component, root) :: rest =>
      let first := p.annotateAt (c.withComponent component.name) root.address
      let others := first.1.annotateVisits c rest
      (others.1, first.2 + others.2)

theorem annotateVisits_append (c : Context) (p : Program) (before after : List (Component × Place))
    : p.annotateVisits c (before ++ after)
      = (((p.annotateVisits c before).1.annotateVisits c after).1,
          (p.annotateVisits c before).2
            + ((p.annotateVisits c before).1.annotateVisits c after).2) := by
  induction before generalizing p with
  | nil => simp [annotateVisits]
  | cons visit rest ih =>
      rw [List.cons_append, annotateVisits, annotateVisits, ih, Nat.add_assoc]

/-- The roots of one component are visited under its name, by induction over the roots. -/
theorem annotateVisits_roots (c : Context) (p : Program) (component : Component) (roots : List Place)
    : p.annotateVisits c (roots.map fun root => (component, root))
      = p.annotateAll (c.withComponent component.name) (roots.map (·.address)) := by
  induction roots generalizing p with
  | nil => rfl
  | cons root rest ih =>
      rw [List.map_cons, List.map_cons, annotateVisits, annotateAll, ih]

/-- Annotation of components visits their roots in order, by induction over the components. -/
theorem annotateComponents_eq_visits (c : Context) (p : Program) (cs : List Component)
    : p.annotateVisits c (visits cs)
      = ((p.annotateComponents c cs).1,
          Report.attributesAdded { details := (p.annotateComponents c cs).2 }) := by
  induction cs generalizing p with
  | nil => rfl
  | cons first rest ih =>
      have split : visits (first :: rest)
          = first.roots.map (fun root => (first, root)) ++ visits rest := rfl
      rw [split, annotateVisits_append, annotateVisits_roots, ih, annotateComponents]
      rfl

-----------------------------------------------------------------------------------------
-- What visits add
-----------------------------------------------------------------------------------------

theorem forall_mem_concat {α : Type} {P : α → Prop} {items : List α} {last : α}
    : (∀ item ∈ items ++ [last], P item) ↔ (∀ item ∈ items, P item) ∧ P last := by
  rw [List.forall_mem_append, List.forall_mem_singleton]

/-- What visits in turn add, by address. -/
def addedBy (c : Context) (p : Program)
    : List (Component × Place) → Address → List (String × String)
  | [], _ => []
  | (component, root) :: rest, a =>
      p.addedAt (c.withComponent component.name) root.address a
        ++ (p.annotateAt (c.withComponent component.name) root.address).1.addedBy c rest a

/-- Visits draw the program with what they add, by induction over the visits. -/
theorem annotateVisits_eq (c : Context) (p : Program) (visited : List (Component × Place))
    : (p.annotateVisits c visited).1 = p.redraw (.adding (p.addedBy c visited)) := by
  induction visited generalizing p with
  | nil => exact p.redraw_adding_nothing.symm
  | cons visit rest ih =>
      rw [annotateVisits, ih, annotateAt_eq, redraw_redraw_adding]
      simp only [addedBy, annotateAt_eq]
      rfl

/-- One more visit adds to what the visits before it have left. -/
theorem addedBy_concat (c : Context) (p : Program) (visited : List (Component × Place))
    (visit : Component × Place) (a : Address)
    : p.addedBy c (visited ++ [visit]) a
      = p.addedBy c visited a
        ++ (p.redraw (.adding (p.addedBy c visited))).addedAt (c.withComponent visit.1.name)
            visit.2.address a := by
  induction visited generalizing p with
  | nil =>
      have untouched : p.redraw (.adding (p.addedBy c [])) = p := p.redraw_adding_nothing
      rw [untouched]
      exact List.append_nil _
  | cons first rest ih =>
      rw [List.cons_append, addedBy, addedBy, ih, ← annotateVisits_eq, ← annotateVisits_eq,
        annotateVisits, List.append_assoc]

/-- What visits add is added by one of them to a node of its root's region, an element that can be
given it. By induction from the last visit.
-/
theorem mem_addedBy {c : Context} {p : Program} {visited : List (Component × Place)}
    (has : ∀ visit ∈ visited, p.Has visit.2) {a : Address} {name value : String}
    (member : (name, value) ∈ p.addedBy c visited a)
    : ∃ visit ∈ visited, ∃ n,
        visit.2.Reaches ⟨a, n⟩
        ∧ classify (some c.aliases) n = .element
        ∧ (c.withComponent visit.1.name).Offers n name value := by
  induction visited using List.reverseRecOn with
  | nil => cases member
  | append_singleton before visit ih =>
      obtain ⟨hasBefore, hasVisit⟩ := forall_mem_concat.mp has
      rw [addedBy_concat, List.mem_append] at member
      rcases member with earlier | now
      · obtain ⟨other, among, found⟩ := ih hasBefore earlier
        exact ⟨other, List.mem_append_left _ among, found⟩
      · rcases addedAt_cases hasVisit (c.withComponent visit.1.name)
            (.adding (p.addedBy c before)) a with nothing | ⟨n, reached, grants⟩
        · rw [nothing] at now
          cases now
        · refine ⟨visit, List.mem_append_right _ (List.mem_singleton_self _), n, reached, ?_, ?_⟩
          · have element := grants.element (List.ne_nil_of_mem now)
            rwa [classify_redraw] at element
          · have offered := grants.offered name value now
            rwa [Context.offers_redraw] at offered

/-- Visits add no name twice to an element, and none that it carries. By induction from the last
visit, which sees what the others have given.
-/
theorem addedBy_fresh {c : Context} {p : Program} {visited : List (Component × Place)}
    (has : ∀ visit ∈ visited, p.Has visit.2) {place : Place} (there : p.Has place)
    (element : place.node.isElement = true)
    : ((p.addedBy c visited place.address).map (·.1)).Nodup
      ∧ ∀ name ∈ (p.addedBy c visited place.address).map (·.1),
          place.node.hasAttribute name = false := by
  obtain ⟨a, node⟩ := place
  induction visited using List.reverseRecOn with
  | nil => exact ⟨List.nodup_nil, fun _ member => absurd member List.not_mem_nil⟩
  | append_singleton before visit ih =>
      obtain ⟨hasBefore, hasVisit⟩ := forall_mem_concat.mp has
      obtain ⟨once, absent⟩ := ih hasBefore
      rw [addedBy_concat, List.map_append]
      rcases addedAt_cases hasVisit (c.withComponent visit.1.name)
          (.adding (p.addedBy c before)) a with nothing | ⟨n, reached, grants⟩
      · rw [nothing, List.map_nil, List.append_nil]
        exact ⟨once, absent⟩
      · obtain rfl : node = n :=
          congrArg Place.node (there.unique (reached.has hasVisit) rfl)
        have fresh (name : String)
            (member : name ∈ ((p.redraw (.adding (p.addedBy c before))).addedAt
              (c.withComponent visit.1.name) visit.2.address a).map (·.1))
            : node.hasAttribute name = false
              ∧ name ∉ (p.addedBy c before a).map (·.1) := by
          have unseen := grants.absent name member
          obtain ⟨⟨_, value⟩, added, rfl⟩ := List.mem_map.mp member
          have proper := (grants.offered _ value added).proper
          rw [Bool.eq_false_iff, ne_eq, Node.hasAttribute_redraw element _ proper, not_or] at unseen
          refine ⟨Bool.eq_false_iff.mpr unseen.1, ?_⟩
          simpa [Redraw.under] using unseen.2
        refine ⟨once.append grants.once fun name given now => (fresh name now).2 given, ?_⟩
        intro name member
        rcases List.mem_append.mp member with given | now
        · exact absent name given
        · exact (fresh name now).1

end Ast.Program
end JsxProvenance
