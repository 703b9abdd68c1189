import Mathlib.Data.List.Permutation
import JsxProvenance.Proofs.Annotation.Settled
import JsxProvenance.Proofs.Render.Pieces

/-! Annotation is idempotent. After a run every root is settled, and settledness is seen in the
outline, so a second run finds nothing to add, whether it works on the annotated tree itself or on
one that was read again from the rendered text.
-/

namespace JsxProvenance.Ast.Program

theorem map_name_eq_of_sites {cs ds : List Component}
    (sites : cs.map Component.site = ds.map Component.site)
    : cs.map (·.name) = ds.map (·.name) := by
  have through (cs : List Component)
      : (cs.map Component.site).map (·.1) = cs.map (·.name) :=
    List.map_map
  rw [← through cs, ← through ds, sites]

theorem sum_added_eq_zero (cs : List Component)
    : Report.attributesAdded { details := cs.map fun d => ⟨d.name, d.roots.length, 0⟩ } = 0 := by
  induction cs with
  | nil => rfl
  | cons first rest ih => exact (Nat.zero_add _).trans ih

/-- A program of the outline of an annotated one has only settled roots. Witness: the component of
the first program at the same site, whose roots were annotated.
-/
theorem settled_of_outline {c : Context} {p q t : Program}
    (annotated : q = (p.annotateComponents c (components p)).1) (alike : t.outline = q.outline)
    (sites : (components t).map Component.site = (components p).map Component.site)
    {component : Component} (member : component ∈ components t) {a : Address}
    (root : a ∈ component.roots.map (·.address))
    : t.Settled (c.withComponent component.name) a := by
  have site : component.site ∈ (components p).map Component.site :=
    sites ▸ List.mem_map_of_mem member
  obtain ⟨first, defined, same⟩ := List.mem_map.mp site
  obtain ⟨named, _, placed⟩ :
      first.name = component.name ∧ first.kind = component.kind
      ∧ first.roots.map (·.address) = component.roots.map (·.address) := by
    simpa [Component.site] using same
  have settled := settled_annotateComponents c p defined (placed ▸ root)
  rw [← annotated, named] at settled
  exact (countAt_eq_of_outline alike _ a).trans settled

/-- A program of the outline of an annotated one is left as it is, and the same components are
reported.
-/
theorem annotate_of_annotated {settings : Settings} {path : Option String} {p q t : Program}
    {report : Report} (h : p.annotate settings path = .ok (q, report))
    (alike : t.outline = q.outline)
    : ∃ again,
        t.annotate settings path = .ok (t, again)
        ∧ again.attributesAdded = 0
        ∧ again.components = report.components
        ∧ again.skipped = report.skipped := by
  obtain ⟨added, drawn, _⟩ := annotate_of_outline (p := p) rfl h
  have filename : t.filename = p.filename := by
    have same : t.outline.filename = q.outline.filename := congrArg (·.filename) alike
    rw [drawn] at same
    exact same
  rcases annotate_cases h with ⟨guarded, rfl, rfl⟩ | ⟨open', aliases, read, annotated, rfl⟩
  · refine ⟨{ skipped := true }, annotate_of_guarded ?_, rfl, rfl, rfl⟩
    rwa [Guarded, filename]
  · have sites : (components t).map Component.site = (components p).map Component.site := by
      rw [sites_eq_of_outline alike, drawn, sites_redraw]
    have reading : (Aliases.collect t).toOption = some aliases := by
      rw [collect_eq_of_outline alike, drawn, Aliases.collect_redraw, read]
      rfl
    have settled := annotateComponents_of_settled fun component member a root =>
      settled_of_outline annotated alike sites member root
    refine ⟨{ details := (components t).map fun d => ⟨d.name, d.roots.length, 0⟩ }, ?_, ?_, ?_,
      rfl⟩
    · have closed : ¬ t.Guarded settings path := by
        rwa [Guarded, filename]
      rw [annotate_of_collect closed (collect_eq_ok reading), settled]
    · exact sum_added_eq_zero (components t)
    · rw [Report.components, Report.components, map_name_annotateComponents, List.map_map]
      exact map_name_eq_of_sites sites

/-- Annotation is idempotent: a second run adds nothing, reports the same components, and leaves
the tree as it is. So does a run on any tree of the same outline in which no attribute is marked as
inserted, and that tree is rendered as its source.
-/
theorem annotate_idempotent {settings : Settings} {path : Option String} {p q : Program}
    {report : Report} (h : p.annotate settings path = .ok (q, report))
    : (∃ again,
        q.annotate settings path = .ok (q, again)
        ∧ again.attributesAdded = 0
        ∧ again.components = report.components
        ∧ again.skipped = report.skipped)
      ∧ ∀ t : Program,
          t.outline = q.outline
          → (∀ place ∈ t.walk, place.node.isInserted = false)
          → ∃ again,
              t.annotate settings path = .ok (t, again)
              ∧ again.attributesAdded = 0
              ∧ t.render = t.source := by
  refine ⟨annotate_of_annotated h rfl, fun t alike unmarked => ?_⟩
  obtain ⟨again, returned, nothing, _⟩ := annotate_of_annotated h alike
  exact ⟨again, returned, nothing, render_of_unmarked unmarked⟩

/-- A file with one component, whose root has a child with an ignored tag. -/
def card : Program where
  filename := "Card.tsx"
  body := [
    .wrap {} (.functionDeclaration (some "Card")) <| .group {} .blockStatement [
      .wrap {} .returnStatement <|
        .element {} (.leaf {} (.jsxIdentifier "section")) [] [
          .element {} (.leaf {} (.jsxIdentifier "br")) [] [] true (some 20)
        ] false (some 10)
    ]
  ]

/-- The card gains two attributes, and no more in a second run. -/
theorem annotate_card_again
    : ∃ q report again,
        card.annotate {} (some "src/Card.tsx") = .ok (q, report)
        ∧ report.attributesAdded = 2
        ∧ q.annotate {} (some "src/Card.tsx") = .ok (q, again)
        ∧ again.attributesAdded = 0
        ∧ again.components = ["Card"] := by
  have open' : ¬ card.Guarded {} (some "src/Card.tsx") := by
    rw [Guarded]
    decide
  have read : Aliases.collect card = .ok {} := rfl
  have reports : (card.annotateComponents { settings := {} } (components card)).2
      = [⟨"Card", 1, 2⟩] := by
    cbv
  have returned := annotate_of_collect open' read
  obtain ⟨⟨again, settled, nothing, same, _⟩, _⟩ := annotate_idempotent returned
  refine ⟨_, _, again, returned, ?_, settled, nothing, ?_⟩
  · rw [reports]
    rfl
  · rw [same, reports]
    rfl

end JsxProvenance.Ast.Program
