import JsxProvenance.Proofs.Annotation.Policies

/-! Annotation from one root of a program as a drawing of the whole program. What is added below
the root is counted from the root, and a drawing counts from the program, so addresses are
lengthened by the way to the root.
-/

namespace JsxProvenance

open Ast

-----------------------------------------------------------------------------------------
-- The pass that a context makes
-----------------------------------------------------------------------------------------

/-- A descent that adds nothing. -/
def Descent.still : Descent Unit where
  gains _ _ := []
  enter _ _ := none
  child _ _ := ()
  rest _ _ := ()

theorem Descent.still_lawful (c : Settings) : still.Lawful c where
  elements _ _ _ := rfl
  enter _ _ _ := rfl
  child _ _ _ := rfl
  rest _ _ _ := rfl
  plain _ _ _ _ := rfl
  spares _ _ _ member := List.not_mem_nil member
  fresh _ member := absurd member List.not_mem_nil

/-- A lawful descent with the state that it starts in. -/
structure Pass (settings : Settings) where
  State : Type
  descent : Descent State
  start : State
  lawful : descent.Lawful settings

/-- What a pass from a root adds, by addresses from the root. -/
def Pass.added {settings : Settings} (pass : Pass settings) (root : Node)
    : Address → List (String × String) :=
  pass.descent.added pass.start root

/-- How many attributes a pass from a root adds. -/
def Pass.count {settings : Settings} (pass : Pass settings) (root : Node) : Nat :=
  pass.descent.count pass.start root

/-- The pass from each root. A component whose own name is ignored gains nothing. -/
def Context.pass (c : Context) : Pass c.settings :=
  if c.component != "" && c.component ∈ c.settings.ignoredComponents then
    ⟨Unit, Descent.still, (), Descent.still_lawful _⟩
  else match c.settings.policy with
    | .full => ⟨String, fullDescent c, c.component, fullDescent_lawful c⟩
    | .legacy => ⟨Unit, legacyDescent c, (), legacyDescent_lawful c⟩

theorem Pass.added_of_not_jsx {settings : Settings} (pass : Pass settings) {root : Node}
    (plain : root.isJsx = false) (a : Address)
    : pass.added root a = [] := by
  refine Descent.added_of_stuck pass.lawful _ ?_ (fun step => ?_) a
  · cases root with
    | element => cases plain
    | _ => rfl
  · cases root with
    | element => cases plain
    | group p form parts => cases form <;> first | rfl | cases plain
    | _ => rfl

/-- Annotation from a root is the drawing that the pass makes. -/
theorem annotateRoot_eq (c : Context) (root : Node)
    : annotateRoot c root = (root.redraw (.adding (c.pass.added root)), c.pass.count root) := by
  cases jsx : root.isJsx with
  | false =>
      rw [annotateRoot, jsx, Pass.added, Pass.count, Descent.redraw_of_not_jsx _ jsx,
        Descent.count_of_not_jsx _ jsx]
      rfl
  | true =>
      by_cases ignored : (c.component != "" && c.component ∈ c.settings.ignoredComponents) = true
      · have still : c.pass = ⟨Unit, Descent.still, (), Descent.still_lawful _⟩ := if_pos ignored
        have nothing : Descent.still.added () root = fun _ => [] := by
          funext a
          cases a <;> simp [Descent.added, Descent.follow, Descent.still]
        have counted : Descent.still.count () root = 0 :=
          (Descent.count_eq_zero_iff (Descent.still_lawful c.settings) () root).mpr
            (congrFun nothing)
        rw [annotateRoot, jsx, if_pos ignored, still, Pass.added, Pass.count, nothing, counted,
          Node.redraw_adding_nothing]
        rfl
      · rw [annotateRoot, jsx, if_neg ignored]
        cases policy : c.settings.policy with
        | full =>
            have full : c.pass = ⟨String, fullDescent c, c.component, fullDescent_lawful c⟩ := by
              rw [Context.pass, if_neg ignored, policy]
            rw [full]
            exact annotateFull_eq c c.component root
        | legacy =>
            have legacy : c.pass = ⟨Unit, legacyDescent c, (), legacyDescent_lawful c⟩ := by
              rw [Context.pass, if_neg ignored, policy]
            rw [legacy]
            exact annotateLegacy_eq c root

-----------------------------------------------------------------------------------------
-- Drawing one node of a tree
-----------------------------------------------------------------------------------------

namespace Ast

/-- Additions in the part that a step leads to, by addresses from the node. -/
def addedBelow (s : Step) (added : Address → List (String × String))
    : Address → List (String × String)
  | [] => []
  | t :: b => if s = t then added b else []

/-- Additions in the node at an address, by addresses from the root. -/
def addedUnder (added : Address → List (String × String))
    : Address → Address → List (String × String)
  | [] => added
  | s :: a => addedBelow s (addedUnder added a)

@[simp]
theorem Redraw.below_adding_addedBelow (s : Step) (added : Address → List (String × String))
    : (adding (addedBelow s added)).below s = adding added := by
  simp [below, adding, addedBelow]

theorem Redraw.below_adding_addedBelow_of_ne {s t : Step} (other : s ≠ t)
    (added : Address → List (String × String))
    : (adding (addedBelow s added)).below t = adding fun _ => [] := by
  simp [below, adding, addedBelow, other]

@[simp]
theorem addedUnder_append (added : Address → List (String × String)) (a b : Address)
    : addedUnder added a (a ++ b) = added b := by
  induction a with
  | nil => rfl
  | cons s a ih => rw [List.cons_append, addedUnder, addedBelow, if_pos rfl, ih]

/-- Additions in a node stand only there, by induction on the way to it. -/
theorem exists_append_of_addedUnder {added : Address → List (String × String)} {a b : Address}
    (h : addedUnder added a b ≠ [])
    : ∃ c, b = a ++ c := by
  induction a generalizing b with
  | nil => exact ⟨b, rfl⟩
  | cons s a ih =>
      cases b with
      | nil => exact absurd rfl h
      | cons t b =>
          rw [addedUnder, addedBelow] at h
          split at h
          · next same =>
              obtain ⟨c, rfl⟩ := ih h
              exact ⟨c, by rw [same, List.cons_append]⟩
          · exact absurd rfl h

@[simp]
theorem addedUnder_nothing (a b : Address) : addedUnder (fun _ => []) a b = [] := by
  induction a generalizing b with
  | nil => rfl
  | cons s a ih => cases b <;> simp [addedUnder, addedBelow, ih]

namespace Node

/-- Changing one node of a list is a drawing of the list if it is one of the node. -/
theorem modify_eq_listRedraw {f : Node → Node} {added : Address → List (String × String)}
    {step : Nat → Step} (apart : ∀ i j, step i = step j → i = j) {nodes : List Node} {i : Nat}
    {part : Node} (found : nodes[i]? = some part) (drawn : f part = part.redraw (.adding added))
    : nodes.modify i f
      = listRedraw (fun j => (Redraw.adding (addedBelow (step i) added)).below (step j)) nodes := by
  apply List.ext_getElem?
  intro j
  rw [List.getElem?_modify, getElem?_listRedraw]
  by_cases same : i = j
  · subst same
    simp [found, drawn]
  · have other : step i ≠ step j := fun h => same (apart i j h)
    simp [same, Redraw.below_adding_addedBelow_of_ne other, redraw_adding_nothing]

/-- Changing the node one step below is a drawing if it is one of that node, by cases on the form
and the step.
-/
theorem modifyStep_eq_redraw {f : Node → Node} {added : Address → List (String × String)}
    {n part : Node} {s : Step} (found : n.step? s = some part)
    (drawn : f part = part.redraw (.adding added))
    : modifyStep f s n = n.redraw (.adding (addedBelow s added)) := by
  have other := @Redraw.below_adding_addedBelow_of_ne
  cases n with
  | absent | plain | leaf => cases found
  | wrap p form below =>
      rcases s with (_ | _) | _ | _ <;> cases found
      simp [redraw, modifyStep, drawn]
  | declarator p binding init =>
      rcases s with (_ | _ | _) | _ | _ <;> cases found <;>
        simp [redraw, modifyStep, other, redraw_adding_nothing, drawn]
  | conditional p test consequent alternate =>
      rcases s with (_ | _ | _ | _) | _ | _ <;> cases found <;>
        simp [redraw, modifyStep, other, redraw_adding_nothing, drawn]
  | group p form parts =>
      cases s with
      | part i =>
          have list := modify_eq_listRedraw (fun i j => Step.part.inj) found drawn
          simp [redraw, modifyStep, ← list]
      | _ => cases found
  | element p name attrs children sc off =>
      have gained : (Redraw.adding (addedBelow s added)).gained p = [] := rfl
      rcases s with (_ | _) | i | i
      · cases found
        simp [redraw, gained, modifyStep, other, listRedraw_adding_nothing, drawn]
      · cases found
      · have list := modify_eq_listRedraw (fun i j => Step.attribute.inj) found drawn
        simp [redraw, gained, modifyStep, other, redraw_adding_nothing, listRedraw_adding_nothing,
          ← list]
      · have list := modify_eq_listRedraw (fun i j => Step.child.inj) found drawn
        simp [redraw, gained, modifyStep, other, redraw_adding_nothing, listRedraw_adding_nothing,
          ← list]

/-- Changing the node at an address is a drawing if it is one of that node, by induction on the
address.
-/
theorem modifyAt_eq_redraw {f : Node → Node} {added : Address → List (String × String)}
    {n node : Node} {a : Address} (found : n.get? a = some node)
    (drawn : f node = node.redraw (.adding added))
    : n.modifyAt f a = n.redraw (.adding (addedUnder added a)) := by
  induction a generalizing n with
  | nil => exact Option.some.inj found ▸ drawn
  | cons s rest ih =>
      obtain ⟨part, stepped, reached⟩ := Option.bind_eq_some_iff.mp found
      exact modifyStep_eq_redraw stepped (ih reached)

end Node

-----------------------------------------------------------------------------------------
-- Annotation from one root of a program
-----------------------------------------------------------------------------------------

namespace Program

theorem toNode_modifyAt {f : Node → Node} {p : Program} {node : Node} {a : Address}
    (found : p.get? a = some node) (fixed : a = [] → f node = node)
    : (p.modifyAt f a).toNode = p.toNode.modifyAt f a := by
  cases a with
  | nil => exact (Option.some.inj found ▸ fixed rfl).symm
  | cons s rest =>
      cases s with
      | part i => simp [modifyAt, toNode, Node.modifyAt, Node.modifyStep]
      | _ => cases found

/-- What the annotation from the root at an address adds, by addresses from the program. -/
def addedAt (c : Context) (p : Program) (a : Address) : Address → List (String × String) :=
  match p.get? a with
  | some root => addedUnder (c.pass.added root) a
  | none => fun _ => []

/-- How many attributes the annotation from the root at an address adds. -/
def countAt (c : Context) (p : Program) (a : Address) : Nat :=
  (p.get? a).elim 0 c.pass.count

theorem addedAt_of_get? {c : Context} {p : Program} {a : Address} {root : Node}
    (found : p.get? a = some root)
    : p.addedAt c a = addedUnder (c.pass.added root) a := by
  rw [addedAt, found]

theorem countAt_of_get? {c : Context} {p : Program} {a : Address} {root : Node}
    (found : p.get? a = some root)
    : p.countAt c a = c.pass.count root := by
  rw [countAt, found, Option.elim_some]

/-- Annotation from one root is a drawing of the program. -/
theorem annotateAt_eq (c : Context) (p : Program) (a : Address)
    : p.annotateAt c a = (p.redraw (.adding (p.addedAt c a)), p.countAt c a) := by
  cases found : p.get? a with
  | none => simp [annotateAt, addedAt, countAt, found, redraw_adding_nothing]
  | some root =>
      simp only [annotateAt, addedAt, countAt, found, annotateRoot_eq, Option.elim_some,
        Prod.mk.injEq, and_true]
      apply ext_toNode
      · have fixed (top : a = []) : root.redraw (.adding (c.pass.added root)) = root := by
          subst top
          cases found
          exact Descent.redraw_of_not_jsx _ rfl
        have changed := toNode_modifyAt (f := fun _ => root.redraw (.adding (c.pass.added root)))
          found fixed
        rw [changed, toNode_redraw]
        exact Node.modifyAt_eq_redraw found rfl
      · cases a with
        | nil => rfl
        | cons s rest => cases s <;> rfl

end Program
end Ast
end JsxProvenance
