import JsxProvenance.Proofs.Annotation.Frame
import JsxProvenance.Proofs.Annotation.Growth

/-! The order in which roots are visited. A node is reached from one root at most, and what it is
given depends only on what it has, so the visits to that root alone decide what the node is given.
Visits to different roots may therefore be made in any order.
-/

namespace JsxProvenance

open Ast

/-- The visits to the root at an address, in order. -/
def visitsTo (root : Address) (visited : List (Component × Place)) : List (Component × Place) :=
  visited.filter fun visit => visit.2.address = root

theorem visitsTo_concat (root : Address) (visited : List (Component × Place))
    (visit : Component × Place)
    : visitsTo root (visited ++ [visit])
      = visitsTo root visited ++ if visit.2.address = root then [visit] else [] := by
  simp [visitsTo, List.filter_append, List.filter_singleton]

/-- Two visits to different roots can be exchanged. -/
theorem visitsTo_swap {first second : Component × Place}
    (apart : first.2.address ≠ second.2.address) (rest : List (Component × Place)) (root : Address)
    : visitsTo root (second :: first :: rest) = visitsTo root (first :: second :: rest) := by
  by_cases here : first.2.address = root
  · have other : second.2.address ≠ root := fun there => apart (here.trans there.symm)
    simp [visitsTo, here, other]
  · simp [visitsTo, List.filter_cons, here]

namespace Ast.Program

variable {c : Context} {p : Program} {visited order : List (Component × Place)}

/-- A node is given nothing by visits to other roots than the one that it is reached from, by
induction from the last visit.
-/
theorem addedBy_eq_visitsTo (roots : ∀ visit ∈ visited, p.IsRoot visit.2) {root place : Place}
    (isRoot : p.IsRoot root) (reached : root.Reaches place)
    : p.addedBy c visited place.address
      = p.addedBy c (visitsTo root.address visited) place.address := by
  induction visited using List.reverseRecOn with
  | nil => rfl
  | append_singleton before visit ih =>
      obtain ⟨rootsBefore, visitRoot⟩ := forall_mem_concat.mp roots
      have earlier := ih rootsBefore
      rw [visitsTo_concat, addedBy_concat, earlier]
      by_cases here : visit.2.address = root.address
      · rw [if_pos here, addedBy_concat,
          addedAt_congr visitRoot.stands.has _ earlier]
      · rw [if_neg here, List.append_nil, List.append_right_eq_self]
        rcases addedAt_cases visitRoot.stands.has (c.withComponent visit.1.name)
            (.adding (p.addedBy c before)) place.address with nothing | ⟨n, reached', _⟩
        · exact nothing
        · exact absurd (congrArg Place.address (visitRoot.unique isRoot reached' reached rfl)) here

/-- Visits to the same roots add the same if the visits to each root come in the same order. -/
theorem addedBy_perm (roots : ∀ visit ∈ visited, p.IsRoot visit.2) (perm : order.Perm visited)
    (same : ∀ root, visitsTo root order = visitsTo root visited)
    : p.addedBy c order = p.addedBy c visited := by
  have roots' (visit : Component × Place) (among : visit ∈ order) : p.IsRoot visit.2 :=
    roots visit (perm.mem_iff.mp among)
  funext a
  by_cases inside : ∃ root n, p.IsRoot root ∧ root.Reaches ⟨a, n⟩
  · obtain ⟨root, n, isRoot, reached⟩ := inside
    have before := addedBy_eq_visitsTo (c := c) roots' isRoot reached
    have after := addedBy_eq_visitsTo (c := c) roots isRoot reached
    rw [before, after, same root.address]
  · have nothing (visited : List (Component × Place))
        (roots : ∀ visit ∈ visited, p.IsRoot visit.2)
        : p.addedBy c visited a = [] := by
      rw [List.eq_nil_iff_forall_not_mem]
      rintro ⟨name, value⟩ member
      obtain ⟨visit, among, n, reached, _⟩ :=
        mem_addedBy (fun visit among => (roots visit among).stands.has) member
      exact inside ⟨visit.2, n, roots visit among, reached⟩
    rw [nothing order roots', nothing visited roots]

/-- Visits to the same roots draw the same tree and count the same number of attributes if the
visits to each root come in the same order.
-/
theorem annotateVisits_perm (roots : ∀ visit ∈ visited, p.IsRoot visit.2)
    (perm : order.Perm visited) (same : ∀ root, visitsTo root order = visitsTo root visited)
    : p.annotateVisits c order = p.annotateVisits c visited := by
  have tree : (p.annotateVisits c order).1 = (p.annotateVisits c visited).1 := by
    rw [annotateVisits_eq, annotateVisits_eq, addedBy_perm roots perm same]
  have grown := p.attributeTotal_annotateVisits c order
  have grown' := p.attributeTotal_annotateVisits c visited
  rw [tree] at grown
  exact Prod.ext tree (by omega)

end Ast.Program

-----------------------------------------------------------------------------------------
-- Roots of one component only
-----------------------------------------------------------------------------------------

/-- No root belongs to two of the components. -/
def Unshared (cs : List Component) : Prop :=
  cs.Pairwise fun first second =>
    ∀ root ∈ first.roots, ∀ other ∈ second.roots, root.address ≠ other.address

theorem nodup_visits {p : Program} {cs : List Component} (sublist : cs.Sublist (components p))
    (unshared : Unshared cs)
    : ((visits cs).map (·.2.address)).Nodup := by
  rw [visits, List.map_flatMap, List.nodup_flatMap]
  constructor
  · intro component member
    obtain ⟨definition, _, defined⟩ := defines_of_mem_components (sublist.subset member)
    rw [List.map_map]
    exact (defines_of_componentAt? defined).nodup_roots
  · refine unshared.imp fun {first second} apart => ?_
    intro a here there
    change a ∈ (first.roots.map _).map _ at here
    change a ∈ (second.roots.map _).map _ at there
    rw [List.map_map] at here there
    obtain ⟨root, among, rfl⟩ := List.mem_map.mp here
    obtain ⟨other, among', same⟩ := List.mem_map.mp there
    exact apart root among other among' same.symm

/-- A list in which each root is visited once has the same visits to each root in any order. -/
theorem visitsTo_perm {visited order : List (Component × Place)}
    (once : (visited.map (·.2.address)).Nodup) (perm : order.Perm visited) (root : Address)
    : visitsTo root order = visitsTo root visited := by
  have filtered : (visitsTo root order).Perm (visitsTo root visited) := perm.filter _
  have few : ((visitsTo root visited).map (·.2.address)).Nodup :=
    once.sublist (List.filter_sublist.map _)
  have placed (visit : Component × Place) (member : visit ∈ visitsTo root visited)
      : visit.2.address = root := by
    simpa using (List.mem_filter.mp member).2
  match visitsTo root visited, filtered, few, placed with
  | [], filtered, _, _ => exact List.perm_nil.mp filtered
  | [visit], filtered, _, _ => exact List.perm_singleton.mp filtered
  | first :: second :: rest, _, few, placed =>
      have same : first.2.address = second.2.address :=
        (placed first (by simp)).trans (placed second (by simp)).symm
      simp [same] at few

namespace Ast.Program

/-- Roots may be visited in any order that keeps the order of the visits to each of them: the same
tree is drawn and the same number of attributes is added as in a run. If no root belongs to two
components, they may be visited in any order at all.
-/
theorem annotate_any_order {settings : Settings} {path : Option String} {p q : Program}
    {report : Report} (h : p.annotate settings path = .ok (q, report))
    : ∃ aliases,
        (report.skipped = false → Aliases.collect p = .ok aliases)
        ∧ (∀ order : List (Component × Place),
            order.Perm (visits (discover p path settings.incompatiblePackages))
            → (∀ root,
                visitsTo root order
                = visitsTo root (visits (discover p path settings.incompatiblePackages)))
            → p.annotateVisits { settings, aliases } order = (q, report.attributesAdded))
        ∧ (Unshared (discover p path settings.incompatiblePackages)
          → ∀ order : List (Component × Place),
              order.Perm (visits (discover p path settings.incompatiblePackages))
              → p.annotateVisits { settings, aliases } order = (q, report.attributesAdded)) := by
  obtain ⟨aliases, visited, outcome⟩ := annotate_visits h
  have sublist := discover_sublist p path settings.incompatiblePackages
  refine ⟨aliases, ?_, ?_, ?_⟩
  · intro open'
    rcases outcome with ⟨skipped, _⟩ | ⟨_, _, read⟩
    · rw [open'] at skipped
      cases skipped
    · exact read
  · intro order perm kept
    rw [annotateVisits_perm (visits_isRoot sublist) perm kept, visited]
  · intro unshared order perm
    have kept := visitsTo_perm (nodup_visits sublist unshared) perm
    rw [annotateVisits_perm (visits_isRoot sublist) perm kept, visited]

/-- The name of a visit and the depth of its root. -/
def visitLabel (visit : Component × Place) : String × Nat :=
  (visit.1.name, visit.2.address.length)

/-- The two roots of the board may be visited in the other order, but the shared one is visited for
the class first.
-/
theorem annotate_any_order_board
    : ∃ report visited order,
        board.annotate boardSettings none = .ok (annotatedBoard, report)
        ∧ visited = visits (discover board none boardSettings.incompatiblePackages)
        ∧ visited.map visitLabel = [("Board", 7), ("Board", 5), ("Row", 7)]
        ∧ order.map visitLabel = [("Board", 5), ("Board", 7), ("Row", 7)]
        ∧ board.annotateVisits { settings := boardSettings } order = (annotatedBoard, 6) := by
  obtain ⟨report, returned, details, open'⟩ := annotate_board
  have labels
      : (visits (discover board none boardSettings.incompatiblePackages)).map visitLabel
        = [("Board", 7), ("Board", 5), ("Row", 7)] := by
    decide +kernel
  obtain ⟨aliases, read, ordered, _⟩ := annotate_any_order returned
  obtain rfl : {} = aliases := Except.ok.inj (read open')
  generalize visits (discover board none boardSettings.incompatiblePackages) = visited
    at labels ordered ⊢
  obtain ⟨first, second, third, rfl⟩ := List.length_eq_three.mp
    ((List.length_map visitLabel).symm.trans (congrArg List.length labels))
  simp only [List.map_cons, List.map_nil, List.cons.injEq, and_true] at labels
  obtain ⟨classShared, classFragment, functionShared⟩ := labels
  have apart : first.2.address ≠ second.2.address := by
    intro same
    have short := congrArg Prod.snd classFragment
    have long := congrArg Prod.snd classShared
    rw [visitLabel, ← same] at short
    cases short.symm.trans long
  have swapped := ordered _ (List.Perm.swap first second [third])
    (visitsTo_swap apart [third])
  refine ⟨report, _, [second, first, third], returned, rfl, ?_, ?_, ?_⟩
  · rw [List.map_cons, List.map_cons, List.map_singleton, classShared, classFragment, functionShared]
  · rw [List.map_cons, List.map_cons, List.map_singleton, classShared, classFragment, functionShared]
  · rw [swapped, Report.attributesAdded, details]
    rfl

end Ast.Program
end JsxProvenance
