import JsxProvenance.Proofs.Annotation.Roots
import JsxProvenance.Proofs.Tree.Outline

/-! Annotation sees no more of a program than its outline: the components and their roots, the
aliases, and the names of the attributes. So what it adds to a program, and what it reports, is the
same for every program of the outline.
-/

namespace JsxProvenance.Ast.Program

-----------------------------------------------------------------------------------------
-- Annotation from one root
-----------------------------------------------------------------------------------------

/-- A node of a drawing is the drawing of the node there, or nothing is there and an attribute was
added.
-/
theorem get?_redraw_cases (r : Redraw) (p : Program) (a : Address)
    : (p.redraw r).get? a = (p.get? a).map (·.redraw (r.under a))
      ∨ p.get? a = none ∧ ∃ n, (p.redraw r).get? a = some n ∧ n.isJsx = false := by
  rw [get?, get?, toNode_redraw]
  cases there : p.toNode.get? a with
  | some node => exact Or.inl (Node.get?_redraw_of_get? r there)
  | none =>
      cases drawn : (p.toNode.redraw r).get? a with
      | none => exact Or.inl rfl
      | some found =>
          rcases Node.get?_redraw drawn with ⟨node, other, _⟩ | mark
          · rw [there] at other
            cases other
          · obtain ⟨q, form, rfl⟩ := Node.exists_leaf_of_isMark mark
            exact Or.inr ⟨rfl, _, rfl, rfl⟩

/-- A drawing that adds nothing gains what the program gains. -/
theorem addedAt_redraw_plain {r : Redraw} (plain : ∀ a, r.added a = []) (c : Context) (p : Program)
    (a : Address)
    : (p.redraw r).addedAt c a = p.addedAt c a := by
  rcases get?_redraw_cases r p a with same | ⟨absent, n, found, text⟩
  · rw [addedAt, addedAt, same]
    cases p.get? a with
    | none => rfl
    | some root =>
        refine congrArg (addedUnder · a) (funext fun b => ?_)
        exact Descent.added_plain c.pass.lawful _ root (fun b => plain (a ++ b)) b
  · rw [addedAt, addedAt, absent, found]
    funext b
    simp only [funext (c.pass.added_of_not_jsx text), addedUnder_nothing]

theorem countAt_redraw_plain {r : Redraw} (plain : ∀ a, r.added a = []) (c : Context) (p : Program)
    (a : Address)
    : (p.redraw r).countAt c a = p.countAt c a := by
  rcases get?_redraw_cases r p a with same | ⟨absent, n, found, text⟩
  · rw [countAt, countAt, same]
    cases p.get? a with
    | none => rfl
    | some root => exact Descent.count_plain c.pass.lawful _ root fun b => plain (a ++ b)
  · rw [countAt, countAt, absent, found]
    exact Descent.count_of_not_jsx _ text

/-- Programs of one outline gain the same from each root. -/
theorem addedAt_eq_of_outline {p q : Program} (alike : p.outline = q.outline) (c : Context)
    (a : Address)
    : p.addedAt c a = q.addedAt c a := by
  have through (p : Program) : p.outline.addedAt c a = p.addedAt c a :=
    addedAt_redraw_plain (r := .outline) (fun _ => rfl) c p a
  rw [← through p, ← through q, alike]

theorem countAt_eq_of_outline {p q : Program} (alike : p.outline = q.outline) (c : Context)
    (a : Address)
    : p.countAt c a = q.countAt c a := by
  have through (p : Program) : p.outline.countAt c a = p.countAt c a :=
    countAt_redraw_plain (r := .outline) (fun _ => rfl) c p a
  rw [← through p, ← through q, alike]

theorem sites_eq_of_outline {p q : Program} (alike : p.outline = q.outline)
    : (components p).map Component.site = (components q).map Component.site := by
  have through (p : Program)
      : (components p.outline).map Component.site = (components p).map Component.site :=
    sites_redraw .outline p
  rw [← through p, ← through q, alike]

theorem collect_eq_of_outline {p q : Program} (alike : p.outline = q.outline)
    : (Aliases.collect p).toOption = (Aliases.collect q).toOption := by
  have through (p : Program)
      : (Aliases.collect p.outline).toOption = (Aliases.collect p).toOption :=
    Aliases.collect_redraw .outline p
  rw [← through p, ← through q, alike]

-----------------------------------------------------------------------------------------
-- Annotation of all components
-----------------------------------------------------------------------------------------

/-- Annotation from several roots adds the same to programs of one outline, by induction over the
roots.
-/
theorem annotateAll_of_outline {p q : Program} (alike : p.outline = q.outline) (c : Context)
    (addresses : List Address)
    : ∃ added,
        (p.annotateAll c addresses).1 = p.redraw (.adding added)
        ∧ (q.annotateAll c addresses).1 = q.redraw (.adding added)
        ∧ (p.annotateAll c addresses).2 = (q.annotateAll c addresses).2 := by
  induction addresses generalizing p q with
  | nil =>
      exact ⟨fun _ => [], p.redraw_adding_nothing.symm, q.redraw_adding_nothing.symm, rfl⟩
  | cons a rest ih =>
      obtain ⟨others, left, right, counts⟩ :=
        ih (outline_redraw_adding alike (p.addedAt c a))
      refine ⟨fun b => p.addedAt c a b ++ others b, ?_, ?_, ?_⟩
      · rw [annotateAll, annotateAt_eq, left, redraw_redraw_adding]
        rfl
      · rw [annotateAll, annotateAt_eq, ← addedAt_eq_of_outline alike, right,
          redraw_redraw_adding]
        rfl
      · rw [annotateAll, annotateAll, annotateAt_eq, annotateAt_eq, ← addedAt_eq_of_outline alike,
          countAt_eq_of_outline alike, counts]

/-- Annotation of several components adds the same to programs of one outline, by induction over
the sites of the components.
-/
theorem annotateComponents_of_outline {p q : Program} (alike : p.outline = q.outline)
    (c : Context) {cs ds : List Component}
    (sites : cs.map Component.site = ds.map Component.site)
    : ∃ added,
        (p.annotateComponents c cs).1 = p.redraw (.adding added)
        ∧ (q.annotateComponents c ds).1 = q.redraw (.adding added)
        ∧ (p.annotateComponents c cs).2 = (q.annotateComponents c ds).2 := by
  induction cs generalizing p q ds with
  | nil =>
      cases ds with
      | nil => exact ⟨fun _ => [], p.redraw_adding_nothing.symm, q.redraw_adding_nothing.symm, rfl⟩
      | cons => cases sites
  | cons first cs ih =>
      cases ds with
      | nil => cases sites
      | cons second ds =>
          obtain ⟨here, later⟩ := List.cons.inj sites
          obtain ⟨named, _, placed⟩ :
              first.name = second.name ∧ first.kind = second.kind
              ∧ first.roots.map (·.address) = second.roots.map (·.address) := by
            simpa [Component.site] using here
          have many : first.roots.length = second.roots.length := by
            simpa using congrArg List.length placed
          obtain ⟨added, left, right, counts⟩ := annotateAll_of_outline alike
            (c.withComponent second.name) (second.roots.map (·.address))
          obtain ⟨others, lefts, rights, reports⟩ :=
            ih (outline_redraw_adding alike added) later
          refine ⟨fun b => added b ++ others b, ?_, ?_, ?_⟩
          · rw [annotateComponents, named, placed, left, lefts, redraw_redraw_adding]
            rfl
          · rw [annotateComponents, right, rights, redraw_redraw_adding]
            rfl
          · rw [annotateComponents, annotateComponents, named, placed, many, left, right, counts,
              reports]

-----------------------------------------------------------------------------------------
-- What annotation returns
-----------------------------------------------------------------------------------------

theorem map_name_annotateComponents (c : Context) (p : Program) (cs : List Component)
    : (p.annotateComponents c cs).2.map (·.name) = cs.map (·.name) := by
  induction cs generalizing p with
  | nil => rfl
  | cons first rest ih => exact congrArg (first.name :: ·) (ih _)

/-- The file guard leaves the program alone. -/
def Guarded (settings : Settings) (path : Option String) (p : Program) : Prop :=
  isKnownIncompatible (some (path.getD p.filename)) settings.incompatiblePackages = true

theorem annotate_of_guarded {settings : Settings} {path : Option String} {p : Program}
    (guarded : p.Guarded settings path)
    : p.annotate settings path = .ok (p, { skipped := true }) :=
  if_pos guarded

theorem discover_of_guarded {settings : Settings} {path : Option String} {p : Program}
    (guarded : p.Guarded settings path)
    : discover p path settings.incompatiblePackages = [] :=
  if_pos guarded

theorem discover_of_open {settings : Settings} {path : Option String} {p : Program}
    (open' : ¬ p.Guarded settings path)
    : discover p path settings.incompatiblePackages = components p :=
  if_neg open'

/-- A program whose aliases are read is annotated component by component. -/
theorem annotate_of_collect {settings : Settings} {path : Option String} {p : Program}
    (open' : ¬ p.Guarded settings path) {aliases : Aliases} (read : Aliases.collect p = .ok aliases)
    : p.annotate settings path
      = .ok ((p.annotateComponents { settings, aliases } (components p)).1,
          { details := (p.annotateComponents { settings, aliases } (components p)).2 }) := by
  unfold Guarded at open'
  rw [annotate, if_neg open', read]
  rfl

theorem annotate_of_fault {settings : Settings} {path : Option String} {p : Program}
    {fault : Fault} (open' : ¬ p.Guarded settings path)
    (read : Aliases.collect p = .error fault)
    : p.annotate settings path = .error fault := by
  unfold Guarded at open'
  rw [annotate, if_neg open', read]
  rfl

/-- Annotation that returns has skipped the program or read its aliases. -/
theorem annotate_cases {settings : Settings} {path : Option String} {p p' : Program}
    {report : Report} (h : p.annotate settings path = .ok (p', report))
    : p.Guarded settings path ∧ p' = p ∧ report = { skipped := true }
      ∨ ¬ p.Guarded settings path
        ∧ ∃ aliases,
            Aliases.collect p = .ok aliases
            ∧ p' = (p.annotateComponents { settings, aliases } (components p)).1
            ∧ report
              = { details := (p.annotateComponents { settings, aliases } (components p)).2 } := by
  by_cases guarded : p.Guarded settings path
  · rw [annotate_of_guarded guarded] at h
    cases h
    exact Or.inl ⟨guarded, rfl, rfl⟩
  · cases read : Aliases.collect p with
    | error fault =>
        unfold Guarded at guarded
        rw [annotate, if_neg guarded, read] at h
        cases h
    | ok aliases =>
        rw [annotate_of_collect guarded read] at h
        cases h
        exact Or.inr ⟨guarded, aliases, rfl, rfl, rfl⟩

theorem guarded_iff_of_filename {p q : Program} (same : p.filename = q.filename)
    (settings : Settings) (path : Option String)
    : p.Guarded settings path ↔ q.Guarded settings path := by
  rw [Guarded, Guarded, same]

theorem guarded_iff_of_outline {p q : Program} (alike : p.outline = q.outline)
    (settings : Settings) (path : Option String)
    : p.Guarded settings path ↔ q.Guarded settings path := by
  apply guarded_iff_of_filename
  simpa [outline, redraw] using congrArg (·.filename) alike

theorem collect_eq_ok {p : Program} {aliases : Aliases}
    (h : (Aliases.collect p).toOption = some aliases)
    : Aliases.collect p = .ok aliases := by
  cases read : Aliases.collect p with
  | error fault =>
      rw [read] at h
      cases h
  | ok others =>
      rw [read] at h
      cases h
      rfl

/-- Annotation adds the same to programs of one outline, and reports the same. -/
theorem annotate_of_outline {p q p' : Program} {report : Report} (alike : p.outline = q.outline)
    {settings : Settings} {path : Option String}
    (h : p.annotate settings path = .ok (p', report))
    : ∃ added,
        p' = p.redraw (.adding added)
        ∧ q.annotate settings path = .ok (q.redraw (.adding added), report) := by
  rcases annotate_cases h with ⟨guarded, rfl, rfl⟩ | ⟨open', aliases, read, rfl, rfl⟩
  · refine ⟨fun _ => [], p'.redraw_adding_nothing.symm, ?_⟩
    rw [q.redraw_adding_nothing]
    exact annotate_of_guarded ((guarded_iff_of_outline alike settings path).mp guarded)
  · obtain ⟨added, left, right, reports⟩ := annotateComponents_of_outline alike
      { settings, aliases } (sites_eq_of_outline alike)
    have reading : (Aliases.collect q).toOption = some aliases := by
      rw [← collect_eq_of_outline alike, read]
      rfl
    refine ⟨added, left, ?_⟩
    rw [annotate_of_collect (mt (guarded_iff_of_outline alike settings path).mpr open')
      (collect_eq_ok reading), right, reports]

end JsxProvenance.Ast.Program
