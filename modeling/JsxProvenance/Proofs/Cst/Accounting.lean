import JsxProvenance.Proofs.Cst.ElementTags
import JsxProvenance.Proofs.Cst.Pipeline
import JsxProvenance.Proofs.Render.Lengths

/-! What runs report and what is written in the end. Each run reports as many attributes as it adds
to the tree, and the text is gathered from the whole tree by a walk of its own. The two agree on a
file in which every tag has a name, whatever runs are made on it.
-/

namespace JsxProvenance

open Ast

-----------------------------------------------------------------------------------------
-- Programs that account for attributes
-----------------------------------------------------------------------------------------

namespace Ast.Program

variable {p q r : Program}

/-- A program is left with a number of texts more to put into the same source. -/
structure Accounts (p q : Program) (number : Nat) : Prop where
  source : q.source = p.source
  writable : q.Writable
  splices : q.splices.length = p.splices.length + number

theorem Accounts.refl (writable : p.Writable) : p.Accounts p 0 :=
  ⟨rfl, writable, rfl⟩

theorem Accounts.trans {m n : Nat} (first : p.Accounts q m) (second : q.Accounts r n)
    : p.Accounts r (m + n) where
  source := second.source.trans first.source
  writable := second.writable
  splices := by rw [second.splices, first.splices, Nat.add_assoc]

/-- A run accounts for the attributes that it reports. -/
theorem Writable.accounts (writable : p.Writable) {settings : Settings} {path : Option String}
    {report : Report} (returned : p.annotate settings path = .ok (q, report))
    : p.Accounts q report.attributesAdded := by
  obtain ⟨added, rfl, total⟩ := annotate_addedTotal returned
  rw [total]
  exact ⟨rfl, writable.redraw_adding added, writable.length_splices_adding added⟩

/-- The number of attributes that runs report. -/
def totalAdded (results : List (Report × List UInt8)) : Nat :=
  (results.map (·.1.attributesAdded)).sum

/-- Runs account for the attributes that they report together, by induction over them. -/
theorem annotateInTurn_accounts {aliases : Aliases} (read : Aliases.collect p = .ok aliases)
    (writable : p.Writable) (runs : List (Settings × Option String))
    : ∃ results q,
        (annotateInTurn runs).Does p results q
        ∧ results.length = runs.length
        ∧ p.Accounts q (totalAdded results) := by
  induction runs generalizing p with
  | nil => exact ⟨[], p, .pure [], rfl, .refl writable⟩
  | cons run rest ih =>
      obtain ⟨report, q, returned, done, again⟩ := annotateInPlace_returns read run.1 run.2
      have first := writable.accounts returned
      obtain ⟨results, last, others, length, second⟩ := ih again first.writable
      refine ⟨_, last, annotateInTurn_cons_does done others, congrArg (· + 1) length, ?_⟩
      exact first.trans second

/-- In a typed program nothing is marked as inserted. -/
theorem unmarked_of_typed (typed : ∀ place ∈ p.walk, place.node.WellTyped)
    : ∀ place ∈ p.walk, place.node.isInserted = false := by
  intro place visited
  have own := typed place visited
  cases form : place.node with
  | leaf position leaf =>
      rw [form] at own
      cases leaf with
      | jsxAttribute => exact own
      | _ => rfl
  | _ => rfl

/-- A typed program has nothing to put in. -/
theorem splices_of_typed (typed : ∀ place ∈ p.walk, place.node.WellTyped) : p.splices = [] :=
  p.render_eq_source_iff.mp (render_of_unmarked (unmarked_of_typed typed))

/-- The aliases of a typed program can be collected. -/
theorem exists_collect_of_typed (typed : ∀ place ∈ p.walk, place.node.WellTyped)
    : ∃ aliases, Aliases.collect p = .ok aliases := by
  cases read : Aliases.collect p with
  | ok aliases => exact ⟨aliases, rfl⟩
  | error fault =>
      exact absurd ((Aliases.collect_fails_iff p).mp ⟨fault, read⟩) (not_refuses_of_typed typed)

end Ast.Program

-----------------------------------------------------------------------------------------
-- Files
-----------------------------------------------------------------------------------------

namespace Cst

/-- The counts are exact. The number that a run reports is that of the attributes by which the
elements of the program have grown, none if the run is skipped, and if it is not it reports the
discovered components in order. After runs with any settings on a file in which every tag has a
name, as many texts are put in as the runs have reported together, and the text is longer by just
these, so it is the source if and only if the runs have reported none.
-/
theorem reports_account
    : (∀ (p q : Program) (settings : Settings) (path : Option String) (report : Report),
        p.annotate settings path = .ok (q, report)
        → p.Grown q report.attributesAdded
          ∧ (report.skipped = true → report.attributesAdded = 0)
          ∧ (report.skipped = false
            → report.components
              = (discover p path settings.incompatiblePackages).map (·.name)))
      ∧ ∀ (filename : String) (source : List UInt8) (root : Cst),
          root.TagsNamed
          → ∀ runs, ∃ results left,
              (Program.annotateInTurn runs).Does (root.toProgram filename source) results left
              ∧ results.length = runs.length
              ∧ left.splices.length = Program.totalAdded results
              ∧ left.render.length = source.length + Splice.totalLength left.splices
              ∧ (Program.totalAdded results = 0 ↔ left.render = source) := by
  refine ⟨fun p q settings path report => Program.annotate_grown, ?_⟩
  intro filename source root named runs
  have typed := toProgram_typed filename source root
  obtain ⟨aliases, read⟩ := Program.exists_collect_of_typed typed
  obtain ⟨results, left, done, length, accounts⟩ :=
    Program.annotateInTurn_accounts read (toProgram_writable named filename source) runs
  have same : left.source = source := accounts.source
  have splices : left.splices.length = Program.totalAdded results := by
    rw [accounts.splices, Program.splices_of_typed typed, List.length_nil, Nat.zero_add]
  refine ⟨results, left, done, length, splices, ?_, ?_⟩
  · rw [← same]
    exact left.length_render
  · rw [← same, left.render_eq_source_iff, ← splices, List.length_eq_zero_iff]

/-- The tree of `function A() { return <b/>; }`. -/
def oneTag : Cst :=
  .node "program" none true 0 29
    [
      .node "function_declaration" none true 0 29
        [
          .node "identifier" (some "name") true 9 10 [],
          .node "statement_block" (some "body") true 13 29
            [
              .node "return_statement" none true 15 27
                [
                  .node "jsx_self_closing_element" none true 22 26
                    [.node "identifier" (some "name") true 23 24 []]
                ]
            ]
        ]
    ]

/-- The text of the tree. -/
def oneTagText : List UInt8 :=
  Utf8.bytes "function A() \x7b return <b/>; \x7d"

/-- The program of the tree. -/
def oneTagFile : Program :=
  oneTag.toProgram "A.tsx" oneTagText

/-- A run gives the tag two attributes, and one that is skipped gives it none. -/
theorem reports_account_oneTag
    : (∃ q report,
        oneTagFile.annotate {} none = .ok (q, report)
        ∧ oneTagFile.Grown q 2
        ∧ report.components = ["A"])
      ∧ ∃ results left,
          (Program.annotateInTurn
              [({}, none), ({}, some "/node_modules/@react-navigation/A.tsx")]).Does
            oneTagFile results left
          ∧ results.map (·.1.attributesAdded) = [2, 0]
          ∧ left.splices.length = 2
          ∧ left.render.length = 29 + Splice.totalLength left.splices
          ∧ left.render ≠ oneTagText := by
  obtain ⟨runs, files⟩ := reports_account
  have open' : ¬ oneTagFile.Guarded {} none := by
    rw [Program.Guarded]
    decide
  have read : Aliases.collect oneTagFile = .ok {} := rfl
  have returned := Program.annotate_of_collect open' read
  have added
      : Report.attributesAdded
          { details :=
              (oneTagFile.annotateComponents { settings := {} } (components oneTagFile)).2 }
        = 2 := by
    decide +kernel
  generalize oneTagFile.annotateComponents { settings := {} } (components oneTagFile) = result
    at returned added
  have found : (discover oneTagFile none ["@react-navigation"]).map (·.name) = ["A"] := by
    decide +kernel
  obtain ⟨grown, _, named⟩ := runs _ _ _ _ _ returned
  rw [added] at grown
  refine ⟨⟨_, _, returned, grown, (named rfl).trans found⟩, ?_⟩
  have skipped : result.1.Guarded {} (some "/node_modules/@react-navigation/A.tsx") := by
    change isKnownIncompatible (some "/node_modules/@react-navigation/A.tsx") _ = true
    decide
  have last : (Program.annotateInTurn []).Does result.1 [] result.1 := .pure []
  have both := Program.annotateInTurn_cons_does (Program.annotateInPlace_does returned)
    (Program.annotateInTurn_cons_does
      (Program.annotateInPlace_does (Program.annotate_of_guarded skipped)) last)
  obtain ⟨results, left, done, _, splices, length, same⟩ :=
    files "A.tsx" oneTagText oneTag (by decide)
      [({}, none), ({}, some "/node_modules/@react-navigation/A.tsx")]
  have ended := Prod.mk.inj (done.symm.trans both)
  have each : results.map (·.1.attributesAdded) = [2, 0] := by
    rw [Except.ok.inj ended.1, List.map_cons, added]
    rfl
  have total : Program.totalAdded results = 2 := by
    rw [Program.totalAdded, each]
    rfl
  rw [total] at splices same
  exact ⟨results, left, done, each, splices, length, mt same.mpr (by decide)⟩

end Cst
end JsxProvenance
