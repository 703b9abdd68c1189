import JsxProvenance.Proofs.Annotation.Outline

/-! Roots that have nothing left to gain. A root is settled once it was annotated, and stays so
when others are annotated, since every pass spares the elements whose tags are ignored. So after a
run each root of each component is settled, under the name it was annotated with.
-/

namespace JsxProvenance.Ast.Program

-----------------------------------------------------------------------------------------
-- Settled roots
-----------------------------------------------------------------------------------------

/-- Annotation from a root has nothing left to add. -/
def Settled (c : Context) (p : Program) (a : Address) : Prop :=
  p.countAt c a = 0

theorem settled_iff {c : Context} {p : Program} {a : Address}
    : p.Settled c a ↔ ∀ b, p.addedAt c a b = [] := by
  cases found : p.get? a with
  | none => simp [Settled, countAt, addedAt, found]
  | some root =>
      rw [Settled, countAt_of_get? found, addedAt_of_get? found]
      refine (Descent.count_eq_zero_iff c.pass.lawful c.pass.start root).trans ⟨?_, ?_⟩
      · intro nothing b
        simp only [show c.pass.added root = fun _ => [] from funext nothing, addedUnder_nothing]
      · intro nothing b
        have here := nothing (a ++ b)
        rwa [addedUnder_append] at here

/-- What annotation from a root adds spares the ignored elements. -/
theorem spares_addedAt (c : Context) (p : Program) (a : Address)
    : (Redraw.adding (p.addedAt c a)).Spares c.settings p.toNode := by
  have spares_nothing (part : Node) : c.settings.Spares part [] :=
    fun _ member => absurd member List.not_mem_nil
  intro b part reached
  change c.settings.Spares part (p.addedAt c a b)
  cases found : p.get? a with
  | none =>
      rw [addedAt, found]
      exact spares_nothing part
  | some root =>
      rw [addedAt_of_get? found]
      by_cases nothing : addedUnder (c.pass.added root) a b = []
      · rw [nothing]
        exact spares_nothing part
      · obtain ⟨rest, rfl⟩ := exists_append_of_addedUnder nothing
        rw [addedUnder_append]
        apply Descent.added_spares c.pass.lawful c.pass.start root
        rwa [Node.get?_append, ← get?, found] at reached

/-- Nothing is left to add from a root if nothing is left in the drawing of the node there. -/
theorem settled_redraw {c : Context} {p : Program} {a : Address} {r : Redraw}
    (settled : ∀ (root : Node) (b : Address),
      p.get? a = some root → c.pass.added (root.redraw (r.under a)) b = [])
    : (p.redraw r).Settled c a := by
  rw [Settled, countAt]
  rcases get?_redraw_cases r p a with same | ⟨_, n, found, text⟩
  · rw [same]
    cases found : p.get? a with
    | none => rfl
    | some root =>
        exact (Descent.count_eq_zero_iff c.pass.lawful c.pass.start _).mpr
          fun b => settled root b found
  · rw [found]
    exact Descent.count_of_not_jsx _ text

/-- A settled root stays settled after a drawing that spares the ignored elements. -/
theorem Settled.redraw {c : Context} {p : Program} {a : Address} (settled : p.Settled c a)
    {r : Redraw} (spares : r.Spares c.settings p.toNode)
    : (p.redraw r).Settled c a := by
  refine settled_redraw fun root b found => ?_
  rw [Settled, countAt_of_get? found] at settled
  refine Descent.added_keeps c.pass.lawful c.pass.start root ?_ ?_ b
  · intro rest part reached
    refine spares (a ++ rest) part ?_
    rw [Node.get?_append, ← get?, found]
    exact reached
  · exact (Descent.count_eq_zero_iff c.pass.lawful c.pass.start root).mp settled

theorem settled_annotateAt (c : Context) (p : Program) (a : Address)
    : (p.annotateAt c a).1.Settled c a := by
  rw [annotateAt_eq]
  refine settled_redraw fun root b found => ?_
  refine Descent.added_settles c.pass.lawful c.pass.start root (fun rest => ?_) b
  rw [addedAt_of_get? found]
  exact addedUnder_append _ a rest

theorem annotateAt_of_settled {c : Context} {p : Program} {a : Address} (settled : p.Settled c a)
    : p.annotateAt c a = (p, 0) := by
  rw [annotateAt_eq, funext (settled_iff.mp settled), redraw_adding_nothing, settled]

theorem Settled.annotateAt {c d : Context} {p : Program} {a : Address} (settled : p.Settled c a)
    (same : d.settings = c.settings) (b : Address)
    : (p.annotateAt d b).1.Settled c a := by
  rw [annotateAt_eq]
  exact settled.redraw (same ▸ spares_addedAt d p b)

-----------------------------------------------------------------------------------------
-- Settled roots along a run
-----------------------------------------------------------------------------------------

theorem Settled.annotateAll {c d : Context} {p : Program} {a : Address} (settled : p.Settled c a)
    (same : d.settings = c.settings) (addresses : List Address)
    : (p.annotateAll d addresses).1.Settled c a := by
  induction addresses generalizing p with
  | nil => exact settled
  | cons b rest ih => exact ih (settled.annotateAt same b)

theorem Settled.annotateComponents {c d : Context} {p : Program} {a : Address}
    (settled : p.Settled c a) (same : d.settings = c.settings) (cs : List Component)
    : (p.annotateComponents d cs).1.Settled c a := by
  induction cs generalizing p with
  | nil => exact settled
  | cons first rest ih => exact ih (settled.annotateAll (d := d.withComponent first.name) same _)

/-- All roots of a list are settled once they were annotated, by induction over the list. -/
theorem settled_annotateAll (c : Context) (p : Program) {addresses : List Address} {a : Address}
    (member : a ∈ addresses)
    : (p.annotateAll c addresses).1.Settled c a := by
  induction addresses generalizing p with
  | nil => exact absurd member List.not_mem_nil
  | cons b rest ih =>
      rcases List.mem_cons.mp member with rfl | later
      · exact (settled_annotateAt c p a).annotateAll rfl rest
      · exact ih _ later

/-- All roots of all components are settled once the components were annotated, by induction over
the components.
-/
theorem settled_annotateComponents (c : Context) (p : Program) {cs : List Component}
    {component : Component} (member : component ∈ cs) {a : Address}
    (root : a ∈ component.roots.map (·.address))
    : (p.annotateComponents c cs).1.Settled (c.withComponent component.name) a := by
  induction cs generalizing p with
  | nil => exact absurd member List.not_mem_nil
  | cons first rest ih =>
      rcases List.mem_cons.mp member with rfl | later
      · exact (settled_annotateAll (c.withComponent component.name) p root).annotateComponents
          (d := c) rfl rest
      · exact ih _ later

/-- Annotation from settled roots changes nothing, by induction over the roots. -/
theorem annotateAll_of_settled {c : Context} {p : Program} {addresses : List Address}
    (settled : ∀ a ∈ addresses, p.Settled c a)
    : p.annotateAll c addresses = (p, 0) := by
  induction addresses with
  | nil => rfl
  | cons a rest ih =>
      rw [annotateAll, annotateAt_of_settled (settled a List.mem_cons_self),
        ih fun b later => settled b (List.mem_cons_of_mem a later)]
      rfl

/-- Annotation of components with settled roots changes nothing, by induction over the
components.
-/
theorem annotateComponents_of_settled {c : Context} {p : Program} {cs : List Component}
    (settled : ∀ component ∈ cs, ∀ a ∈ component.roots.map (·.address),
      p.Settled (c.withComponent component.name) a)
    : p.annotateComponents c cs = (p, cs.map fun d => ⟨d.name, d.roots.length, 0⟩) := by
  induction cs with
  | nil => rfl
  | cons first rest ih =>
      rw [annotateComponents, annotateAll_of_settled (settled first List.mem_cons_self),
        ih fun d later => settled d (List.mem_cons_of_mem first later)]
      rfl

end JsxProvenance.Ast.Program
