import Mathlib.Data.List.Permutation
import JsxProvenance.Proofs.Annotation.Outline
import JsxProvenance.Proofs.Render.Reading

/-! Several runs over one program. The tree may collect the attributes of all runs and be rendered
once, or the text may be rendered and read again after each run. Reading is a simulation: it keeps
the outline, so each run adds the same and reports the same, and reading after it forgets whether
the program had been read before.
-/

namespace JsxProvenance.Ast.Program

/-- Annotates a program with several settings in turn. Something may be done after each run. -/
def annotateEach (after : Program → Program) (path : Option String) (p : Program)
    : List Settings → Except Fault (Program × List Report)
  | [] => .ok (p, [])
  | settings :: rest => do
      let (q, report) ← p.annotate settings path
      let (r, reports) ← (after q).annotateEach after path rest
      return (r, report :: reports)

variable {after : Program → Program} {settings : Settings} {path : Option String}
  {configs : List Settings} {p q : Program} {report : Report} {reports : List Report}

/-- Several runs return what the first and the others return. -/
theorem annotateEach_cons_iff
    : p.annotateEach after path (settings :: configs) = .ok (q, reports)
      ↔ ∃ first report others,
          p.annotate settings path = .ok (first, report)
          ∧ (after first).annotateEach after path configs = .ok (q, others)
          ∧ reports = report :: others := by
  rw [annotateEach]
  cases run : p.annotate settings path with
  | error fault => exact ⟨nofun, nofun⟩
  | ok result =>
      obtain ⟨first, report⟩ := result
      change (do
        let (r, reports) ← (after first).annotateEach after path configs
        return (r, report :: reports)) = _ ↔ _
      cases rest : (after first).annotateEach after path configs with
      | error fault =>
          refine ⟨nofun, ?_⟩
          rintro ⟨_, _, _, same, others, _⟩
          cases same
          rw [rest] at others
          cases others
      | ok result =>
          obtain ⟨last, others⟩ := result
          constructor
          · intro returned
            cases returned
            exact ⟨first, report, others, rfl, rest, rfl⟩
          · rintro ⟨_, _, _, same, returned, rfl⟩
            cases same
            rw [rest] at returned
            cases returned
            rfl

theorem outline_reread (p : Program) : p.reread.outline = p.outline :=
  outline_redraw (r := .reading p.movedOffset) (fun _ => rfl) p

/-- A run on the program that was read again adds and reports the same, and reading after it gives
what reading after the run on the tree itself gives.
-/
theorem annotate_reread (placed : p.Placed) (h : p.annotate settings path = .ok (q, report))
    : q.Placed
      ∧ ∃ r, p.reread.annotate settings path = .ok (r, report) ∧ r.reread = q.reread := by
  obtain ⟨added, rfl, again⟩ := annotate_of_outline (outline_reread p).symm h
  exact ⟨placed.redraw_adding added, _, again, placed.reread_adding_reread added⟩

/-- Runs on the program that was read again, with reading in between, end in the program that is
read after all runs, by induction over the runs.
-/
theorem annotateEach_reread (placed : p.Placed)
    (h : p.annotateEach id path configs = .ok (q, reports))
    : p.reread.annotateEach reread path configs = .ok (q.reread, reports) := by
  induction configs generalizing p reports with
  | nil =>
      cases h
      rfl
  | cons settings rest ih =>
      obtain ⟨first, report, others, run, later, rfl⟩ := annotateEach_cons_iff.mp h
      obtain ⟨next, other, again, same⟩ := annotate_reread placed run
      refine annotateEach_cons_iff.mpr ⟨other, report, others, again, ?_, rfl⟩
      rw [same]
      exact ih next later

/-- Annotating one tree several times and rendering it once gives the text that rendering and
reading after each run gives, and each run reports the same.
-/
theorem render_annotateEach (placed : p.Placed)
    (unmarked : ∀ place ∈ p.walk, place.node.isInserted = false)
    (h : p.annotateEach id path configs = .ok (q, reports))
    : ∃ r, p.annotateEach reread path configs = .ok (r, reports) ∧ r.source = q.render := by
  cases configs with
  | nil =>
      cases h
      exact ⟨p, rfl, (render_of_unmarked unmarked).symm⟩
  | cons settings rest =>
      obtain ⟨first, report, others, run, later, rfl⟩ := annotateEach_cons_iff.mp h
      obtain ⟨added, drawn, _⟩ := annotate_of_outline (p := p) rfl run
      have next : first.Placed := drawn ▸ placed.redraw_adding added
      refine ⟨q.reread, annotateEach_cons_iff.mpr ⟨first, report, others, run, ?_, rfl⟩, rfl⟩
      exact annotateEach_reread next later

/-- A file with one element in a spread of another, and one between its tags. -/
def row : Program where
  filename := "Row.tsx"
  source := Utf8.bytes "function Row() \x7b return <ul \x7b...<b/>\x7d><li/></ul> \x7d"
  body := [
    .wrap {} (.functionDeclaration (some "Row")) <| .group {} .blockStatement [
      .wrap {} .returnStatement <|
        .element {} (.leaf {} (.jsxIdentifier "ul")) [
          .group {} (.opaqueNode "jsx_expression") [
            .element {} (.leaf {} (.jsxIdentifier "b")) [] [] true (some 34)
          ]
        ] [
          .element {} (.leaf {} (.jsxIdentifier "li")) [] [] true (some 41)
        ] false (some 37)
    ]
  ]

theorem row_placed : row.Placed := by
  have offsets : row.offsets = [some 37, some 34, some 41] := by
    cbv
  have length : row.source.length = 50 := by
    cbv
  constructor
  · rw [offsets, length]
    simp
  · rw [offsets]
    decide

theorem row_unmarked : ∀ place ∈ row.walk, place.node.isInserted = false := by
  have all : row.walk.all (fun place => !place.node.isInserted) = true := by
    cbv
  intro place visited
  simpa using List.all_eq_true.mp all place visited

/-- The row after a run under the default settings. -/
def annotatedRow : Program :=
  (row.annotateComponents { settings := {} } (components row)).1

/-- The row gains attributes under both families of names, with or without reading in between. -/
theorem render_annotateEach_row
    : row.Placed
      ∧ (∀ place ∈ row.walk, place.node.isInserted = false)
      ∧ ∃ q r reports,
          row.annotateEach id none [{}, { alternateNames := true }] = .ok (q, reports)
          ∧ row.annotateEach reread none [{}, { alternateNames := true }] = .ok (r, reports)
          ∧ r.source = q.render
          ∧ reports.map Report.attributesAdded = [3, 3] := by
  have guard (settings : Settings)
      (known : settings.incompatiblePackages = knownIncompatiblePackages) {p : Program}
      (named : p.filename = "Row.tsx")
      : ¬ p.Guarded settings none := by
    rw [Guarded, known, named]
    decide
  obtain ⟨report, run, three⟩
      : ∃ report, row.annotate {} none = .ok (annotatedRow, report) ∧ report.attributesAdded = 3 := by
    refine ⟨_, annotate_of_collect (guard {} rfl rfl) rfl, ?_⟩
    cbv
  obtain ⟨q, again, rerun, more⟩
      : ∃ q report,
          annotatedRow.annotate { alternateNames := true } none = .ok (q, report)
          ∧ report.attributesAdded = 3 := by
    have named : annotatedRow.filename = "Row.tsx" := by
      cbv
    have read : Aliases.collect annotatedRow = .ok {} := by
      cbv
    refine ⟨_, _, annotate_of_collect (guard _ rfl named) read, ?_⟩
    cbv
  have runs : row.annotateEach id none [{}, { alternateNames := true }] = .ok (q, [report, again]) :=
    annotateEach_cons_iff.mpr
      ⟨_, _, _, run, annotateEach_cons_iff.mpr ⟨_, _, _, rerun, rfl, rfl⟩, rfl⟩
  obtain ⟨r, reread, same⟩ := render_annotateEach row_placed row_unmarked runs
  refine ⟨row_placed, row_unmarked, q, r, _, runs, reread, same, ?_⟩
  rw [List.map_cons, List.map_cons, three, more, List.map_nil]

end JsxProvenance.Ast.Program
