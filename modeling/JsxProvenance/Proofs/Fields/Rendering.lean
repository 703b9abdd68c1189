import JsxProvenance.Proofs.Fields.AllOrNothing
import JsxProvenance.Splice

/-! The text of a program, written field by field, and several runs in place with the text after
each. Rendering looks at the form of each node before it reads on, so it never fails, and a run after
which the aliases can be read leaves a program where they can be read again.
-/

namespace JsxProvenance

open Ast

-----------------------------------------------------------------------------------------
-- The text of a program
-----------------------------------------------------------------------------------------

namespace Splice

/-- The text of an inserted attribute, read field by field. -/
def attributeTextByField (attr : Node) : Except Missing (Option (List UInt8)) := do
  if attr.typeName = "JSXAttribute" then
    let inserted ← attr.readFlag "inserted"
    if inserted then
      let name ← attr.readText "name"
      let value ← attr.readText? "value"
      return some (Utf8.encode (writtenAttribute name value))
    else return none
  else return none

/-- The splices of an element at its offset, read field by field. -/
def insertedAt (n : Node) (offset : Nat) : Except Missing (List Splice) := do
  let attributes ← n.readNodes "attributes"
  let texts ← attributes.mapM attributeTextByField
  return texts.reduceOption.map fun text => ⟨offset, text⟩

/-- The splices of one node, read field by field. -/
def ofNodeByField (n : Node) : Except Missing (List Splice) := do
  if n.typeName = "JSXElement" then
    match ← n.readNumber? "insert_offset" with
    | none => return []
    | some offset => insertedAt n offset
  else return []

theorem attributeTextByField_eq (attr : Node)
    : attributeTextByField attr = .ok (attributeText? attr) := by
  cases attr with
  | leaf p form =>
      cases form with
      | jsxAttribute name value inserted => cases inserted <;> rfl
      | _ => rfl
  | wrap p form => cases form <;> rfl
  | group p form => cases form <;> rfl
  | _ => rfl

theorem ofNodeByField_eq (n : Node) : ofNodeByField n = .ok (ofNode n) := by
  cases n with
  | element p name attributes children selfClosing insertOffset =>
      cases insertOffset with
      | none => rfl
      | some offset =>
          have texts
              : attributes.mapM attributeTextByField = .ok (attributes.map attributeText?) := by
            rw [funext attributeTextByField_eq]
            exact List.mapM_pure
          change insertedAt (.element p name attributes children selfClosing (some offset)) offset = _
          rw [insertedAt, Node.readNodes_attributes rfl]
          change attributes.mapM attributeTextByField >>= _ = _
          rw [texts]
          change Except.ok (((attributes.map attributeText?).filterMap id).map _) = _
          rw [List.filterMap_map]
          rfl
  | leaf p form => cases form <;> rfl
  | wrap p form => cases form <;> rfl
  | group p form => cases form <;> rfl
  | _ => rfl

end Splice

namespace Ast.Program

/-- The text of a program with its inserted attributes, read field by field. -/
def renderByField (p : Program) : Except Missing (List UInt8) := do
  let places ← walkByField [p.toPlace]
  let splices ← places.mapM (Splice.ofNodeByField ·.node)
  let text := Splice.applySorted 0 p.source (Splice.sorted splices.flatten)
  return SourceText.encode (SourceText.decode text)

theorem renderByField_eq (p : Program) : p.renderByField = .ok p.render := by
  have splices
      : p.walk.mapM (fun place => Splice.ofNodeByField place.node)
        = .ok (p.walk.map fun place => Splice.ofNode place.node) := by
    simp only [Splice.ofNodeByField_eq]
    exact List.mapM_pure
  rw [renderByField, walkByField_eq (List.forall_mem_singleton.mpr rfl)]
  change p.walk.mapM (fun place => Splice.ofNodeByField place.node) >>= _ = _
  rw [splices]
  change Except.ok _ = _
  rw [← List.flatMap_def]
  rfl

-----------------------------------------------------------------------------------------
-- Runs in place
-----------------------------------------------------------------------------------------

/-- One run in place, and the text that it leaves. -/
def annotateAndRender (settings : Settings) (path : Option String)
    : InPlace Program (Report × List UInt8) := do
  let report ← annotateInPlace settings path
  let p ← get
  let text ← p.renderByField
  return (report, text)

/-- Runs in place, one after the other, each with its settings and its path. -/
def annotateInTurn (runs : List (Settings × Option String))
    : InPlace Program (List (Report × List UInt8)) :=
  runs.mapM fun run => annotateAndRender run.1 run.2

variable {p q last : Program}

theorem annotateInPlace_does {settings : Settings} {path : Option String} {report : Report}
    (returned : p.annotate settings path = .ok (q, report))
    : (annotateInPlace settings path).Does p report q := by
  have run := outcome_annotateInPlace settings path p
  rwa [returned] at run

/-- A run on a program whose aliases can be read returns, and they can be read afterwards. -/
theorem annotateInPlace_returns {aliases : Aliases} (read : Aliases.collect p = .ok aliases)
    (settings : Settings) (path : Option String)
    : ∃ report q,
        p.annotate settings path = .ok (q, report)
        ∧ (annotateInPlace settings path).Does p report q
        ∧ Aliases.collect q = .ok aliases := by
  obtain ⟨q, report, returned⟩ : ∃ q report, p.annotate settings path = .ok (q, report) := by
    by_cases guarded : p.Guarded settings path
    · exact ⟨_, _, annotate_of_guarded guarded⟩
    · exact ⟨_, _, annotate_of_collect guarded read⟩
  have done := annotateInPlace_does returned
  obtain ⟨added, rfl, _⟩ := annotate_of_outline rfl returned
  exact ⟨report, _, returned, done, collect_redraw_of_ok read _⟩

/-- A run leaves its text, and the others go on from the program that it leaves. -/
theorem annotateInTurn_cons_does {settings : Settings} {path : Option String}
    {rest : List (Settings × Option String)} {report : Report} {results : List (Report × List UInt8)}
    (done : (annotateInPlace settings path).Does p report q)
    (others : (annotateInTurn rest).Does q results last)
    : (annotateInTurn ((settings, path) :: rest)).Does p ((report, q.render) :: results) last := by
  rw [annotateInTurn, List.mapM_cons]
  refine .bind (.bind done (.bind .get (.bind (.read q.renderByField_eq) (.pure _)))) ?_
  exact .bind others (.pure _)

/-- Runs on a program whose aliases can be read return one after the other, by induction over them. -/
theorem annotateInTurn_returns {aliases : Aliases} (read : Aliases.collect p = .ok aliases)
    (runs : List (Settings × Option String))
    : ∃ results q, (annotateInTurn runs).Does p results q ∧ results.length = runs.length := by
  induction runs generalizing p with
  | nil => exact ⟨[], p, .pure [], rfl⟩
  | cons run rest ih =>
      obtain ⟨report, q, _, done, again⟩ := annotateInPlace_returns read run.1 run.2
      obtain ⟨results, last, others, length⟩ := ih again
      exact ⟨_, last, annotateInTurn_cons_does done others, congrArg (· + 1) length⟩

end Ast.Program
end JsxProvenance
