import JsxProvenance.Proofs.Annotation.Outline
import JsxProvenance.Proofs.Component.Placement
import JsxProvenance.Proofs.Component.Roots

/-! Annotation statement by statement. The roots of a component lie in one statement, and
annotation from a root sees and changes nothing outside of it. So two bodies in one are annotated as
each of them is alone, provided that the same names stand for a fragment.
-/

namespace JsxProvenance

open Ast

-----------------------------------------------------------------------------------------
-- Aliases that name the same
-----------------------------------------------------------------------------------------

/-- The same names stand for a fragment, and the same for the namespace, in whatever order. -/
structure Aliases.Same (a b : Aliases) : Prop where
  fragments : ∀ name, name ∈ a.fragments ↔ name ∈ b.fragments
  namespaces : ∀ name, name ∈ a.namespaces ↔ name ∈ b.namespaces

namespace Aliases.Same

variable {a b : Aliases}

theorem isFragmentTag_eq (same : a.Same b) (tag : Node)
    : a.isFragmentTag tag = b.isFragmentTag tag := by
  unfold isFragmentTag
  simp only [same.fragments, same.namespaces]

theorem isFragment_eq (same : a.Same b) (n : Node)
    : isFragment (some a) n = isFragment (some b) n := by
  unfold isFragment
  simp only [Option.any_some, same.isFragmentTag_eq]

theorem classify_eq (same : a.Same b) (n : Node)
    : classify (some a) n = classify (some b) n := by
  unfold classify
  rw [same.isFragment_eq]

end Aliases.Same

/-- Contexts that differ at most in the order of their aliases. -/
structure Context.Alike (c d : Context) : Prop where
  settings : c.settings = d.settings
  component : c.component = d.component
  aliases : c.aliases.Same d.aliases

namespace Context.Alike

variable {c d : Context}

theorem withComponent (alike : c.Alike d) (name : String)
    : (c.withComponent name).Alike (d.withComponent name) :=
  ⟨alike.settings, rfl, alike.aliases⟩

theorem fullInjection_eq (alike : c.Alike d) (n : Node)
    : fullInjection c n = fullInjection d n := by
  unfold fullInjection
  rw [alike.settings, alike.component, alike.aliases.classify_eq]

theorem legacyInjection_eq (alike : c.Alike d) (n : Node)
    : legacyInjection c n = legacyInjection d n := by
  unfold legacyInjection
  rw [alike.settings, alike.component, alike.aliases.classify_eq]

theorem fullDescent_eq (alike : c.Alike d) : fullDescent c = fullDescent d := by
  unfold fullDescent
  simp only [fun name => (alike.withComponent name).fullInjection_eq, alike.settings,
    alike.aliases.isFragment_eq, alike.aliases.classify_eq]

theorem legacyDescent_eq (alike : c.Alike d) : legacyDescent c = legacyDescent d := by
  unfold legacyDescent
  simp only [alike.legacyInjection_eq]

theorem annotateRoot_eq (alike : c.Alike d) (root : Node)
    : annotateRoot c root = annotateRoot d root := by
  unfold annotateRoot
  simp only [annotateFull_eq, annotateLegacy_eq, alike.fullDescent_eq, alike.legacyDescent_eq,
    alike.settings, alike.component]

theorem annotateAll_eq (alike : c.Alike d) (p : Program) (addresses : List Address)
    : p.annotateAll c addresses = p.annotateAll d addresses := by
  induction addresses generalizing p with
  | nil => rfl
  | cons a rest ih =>
      have here : p.annotateAt c a = p.annotateAt d a := by
        unfold Program.annotateAt
        simp only [alike.annotateRoot_eq]
      rw [Program.annotateAll, Program.annotateAll, here, ih]

/-- Annotation of components is the same in both contexts, by induction over the components. -/
theorem annotateComponents_eq (alike : c.Alike d) (p : Program) (cs : List Component)
    : p.annotateComponents c cs = p.annotateComponents d cs := by
  induction cs generalizing p with
  | nil => rfl
  | cons first rest ih =>
      have here := (alike.withComponent first.name).annotateAll_eq p
      rw [Program.annotateComponents, Program.annotateComponents, here, ih]

end Context.Alike

-----------------------------------------------------------------------------------------
-- One body between others
-----------------------------------------------------------------------------------------

namespace Ast.Program

/-- The outer program with the body of another one between two lists of statements. -/
def between (outer : Program) (before after : List Node) (p : Program) : Program :=
  { outer with body := before ++ p.body ++ after }

/-- The address leads to a statement of the body or into one. -/
def Inside (p : Program) (a : Address) : Prop :=
  ∃ i rest, a = .part i :: rest ∧ i < p.body.length

variable {p q outer : Program} {before after : List Node} {a : Address}

theorem Inside.of_length (inside : p.Inside a) (same : q.body.length = p.body.length)
    : q.Inside a := by
  obtain ⟨i, rest, rfl, inside⟩ := inside
  exact ⟨i, rest, rfl, same ▸ inside⟩

/-- A root stands in the body, since the program itself is no JSX. -/
theorem IsRoot.inside {root : Place} (isRoot : p.IsRoot root) : p.Inside root.address := by
  have there : p.toNode.get? root.address = some root.node := isRoot.stands.has
  have jsx := isRoot.stands.jsx
  cases way : root.address with
  | nil =>
      rw [way] at there
      rw [← Option.some.inj there] at jsx
      cases jsx
  | cons s rest =>
      rw [way] at there
      obtain ⟨statement, stepped, _⟩ := Option.bind_eq_some_iff.mp there
      cases s with
      | part i => exact ⟨i, rest, rfl, (List.getElem?_eq_some_iff.mp stepped).1⟩
      | _ => cases stepped

theorem getElem?_between {body : List Node} {i : Nat} (inside : i < body.length)
    : (before ++ body ++ after)[i + before.length]? = body[i]? := by
  rw [List.append_assoc, List.getElem?_append_right (Nat.le_add_left _ _), Nat.add_sub_cancel,
    List.getElem?_append_left inside]

theorem modify_between {body : List Node} {i : Nat} (inside : i < body.length) (f : Node → Node)
    : (before ++ body ++ after).modify (i + before.length) f
      = before ++ body.modify i f ++ after := by
  obtain ⟨left, statement, right, rfl, rfl, changed⟩ := List.exists_of_modify f inside
  have there := List.modifyTailIdx_add (List.modifyHead f) 0 (before ++ left)
    (statement :: (right ++ after))
  rw [changed]
  simpa [List.modify, Nat.add_comm] using there

theorem get?_between (inside : p.Inside a)
    : (outer.between before after p).get? (a.shift before.length) = p.get? a := by
  obtain ⟨i, rest, rfl, inside⟩ := inside
  exact congrArg (Option.bind · (Node.get? · rest)) (getElem?_between inside)

theorem modifyAt_between (inside : p.Inside a) (f : Node → Node)
    : (outer.between before after p).modifyAt f (a.shift before.length)
      = outer.between before after (p.modifyAt f a) := by
  obtain ⟨i, rest, rfl, inside⟩ := inside
  exact congrArg (fun body => { outer with body }) (modify_between inside _)

-----------------------------------------------------------------------------------------
-- Annotation of one body between others
-----------------------------------------------------------------------------------------

theorem length_body_redraw (r : Redraw) (p : Program)
    : (p.redraw r).body.length = p.body.length := by
  rw [redraw, Node.listRedraw_eq_mapIdx, List.length_mapIdx]

theorem length_body_annotateAt (c : Context) (p : Program) (a : Address)
    : (p.annotateAt c a).1.body.length = p.body.length := by
  rw [annotateAt_eq, length_body_redraw]

theorem length_body_annotateAll (c : Context) (p : Program) (addresses : List Address)
    : (p.annotateAll c addresses).1.body.length = p.body.length := by
  obtain ⟨added, drawn, _⟩ := annotateAll_of_outline (p := p) rfl c addresses
  rw [drawn, length_body_redraw]

theorem length_body_annotateComponents (c : Context) (p : Program) (cs : List Component)
    : (p.annotateComponents c cs).1.body.length = p.body.length := by
  obtain ⟨added, drawn, _⟩ := @annotateComponents_of_outline p p rfl c cs cs rfl
  rw [drawn, length_body_redraw]

/-- Annotation from a root sees and changes nothing in the statements around the body. -/
theorem annotateAt_between (inside : p.Inside a) (c : Context)
    : (outer.between before after p).annotateAt c (a.shift before.length)
      = (outer.between before after (p.annotateAt c a).1, (p.annotateAt c a).2) := by
  unfold annotateAt
  rw [get?_between inside]
  cases p.get? a with
  | none => rfl
  | some root => simp only [modifyAt_between inside]

theorem annotateAll_between {addresses : List Address} (inside : ∀ a ∈ addresses, p.Inside a)
    (outer : Program) (before after : List Node) (c : Context)
    : (outer.between before after p).annotateAll c (addresses.map (·.shift before.length))
      = (outer.between before after (p.annotateAll c addresses).1,
          (p.annotateAll c addresses).2) := by
  induction addresses generalizing p with
  | nil => rfl
  | cons a rest ih =>
      obtain ⟨first, others⟩ := List.forall_mem_cons.mp inside
      have later := ih fun b member =>
        (others b member).of_length (length_body_annotateAt c p a)
      rw [List.map_cons, annotateAll, annotateAt_between first, later]
      rfl

/-- Annotation of components whose roots stand in the body sees and changes nothing in the
statements around it, by induction over the components.
-/
theorem annotateComponents_between {cs : List Component}
    (inside : ∀ component ∈ cs, ∀ root ∈ component.roots, p.Inside root.address)
    (outer : Program) (before after : List Node) (c : Context)
    : (outer.between before after p).annotateComponents c (cs.map (·.shift before.length))
      = (outer.between before after (p.annotateComponents c cs).1,
          (p.annotateComponents c cs).2) := by
  induction cs generalizing p with
  | nil => rfl
  | cons first rest ih =>
      obtain ⟨rooted, others⟩ := List.forall_mem_cons.mp inside
      let addresses := first.roots.map (·.address)
      have here := annotateAll_between (List.forall_mem_map.mpr rooted) outer before after
        (c.withComponent first.name)
      have still : (p.annotateAll (c.withComponent first.name) addresses).1.body.length
          = p.body.length :=
        length_body_annotateAll _ _ _
      have later := ih fun component member root rooted =>
        (others component member root rooted).of_length still
      have shifted
          : (first.shift before.length).roots.map (·.address)
            = addresses.map (·.shift before.length) := by
        simp only [Component.shift, List.map_map, addresses]
        rfl
      have many : (first.shift before.length).roots.length = first.roots.length :=
        List.length_map _
      have named : (first.shift before.length).name = first.name := rfl
      rw [List.map_cons, annotateComponents, shifted, many, named, here, later]
      rfl

-----------------------------------------------------------------------------------------
-- Two bodies in one
-----------------------------------------------------------------------------------------

theorem annotateComponents_append (c : Context) (p : Program) (cs ds : List Component)
    : p.annotateComponents c (cs ++ ds)
      = (((p.annotateComponents c cs).1.annotateComponents c ds).1,
          (p.annotateComponents c cs).2
            ++ ((p.annotateComponents c cs).1.annotateComponents c ds).2) := by
  induction cs generalizing p with
  | nil => rfl
  | cons first rest ih =>
      rw [List.cons_append, annotateComponents, annotateComponents, ih]
      rfl

/-- The components of two bodies in one are annotated body by body. Those of the first come first,
while the second body follows untouched, and then those of the second, behind what the first has
become.
-/
theorem annotateComponents_components {first second whole : Program}
    (joined : whole.body = first.body ++ second.body) (c : Context)
    : whole.annotateComponents c (components whole)
      = (
          { whole with
            body := (first.annotateComponents c (components first)).1.body
              ++ (second.annotateComponents c (components second)).1.body },
          (first.annotateComponents c (components first)).2
            ++ (second.annotateComponents c (components second)).2
        ) := by
  have inside (p : Program)
      : ∀ component ∈ components p, ∀ root ∈ component.roots, p.Inside root.address :=
    fun component member root rooted => IsRoot.inside ⟨component, member, rooted⟩
  let first' := (first.annotateComponents c (components first)).1
  have start : whole = whole.between [] second.body first := by
    rw [between, List.nil_append, ← joined]
  have early
      : whole.annotateComponents c (components first)
        = (whole.between [] second.body first', (first.annotateComponents c (components first)).2)
      := by
    have here := annotateComponents_between (inside first) whole [] second.body c
    rwa [← start, List.length_nil, Component.map_shift_zero] at here
  -- the second body now follows the annotated first one
  have next : whole.between [] second.body first' = whole.between first'.body [] second := by
    rw [between, between, List.nil_append, List.append_nil]
  have late := annotateComponents_between (inside second) whole first'.body [] c
  have same : first'.body.length = first.body.length := length_body_annotateComponents c _ _
  rw [same] at late
  rw [components_append joined, annotateComponents_append, early, next, late, between,
    List.append_nil]

/-- Programs in which the same names stand for a fragment, and the same for the namespace. -/
def SameAliases (p q : Program) : Prop :=
  ∃ a b, Aliases.collect p = .ok a ∧ Aliases.collect q = .ok b ∧ a.Same b

/-- Two bodies in one file are annotated as each of them is alone, if the same names stand for a
fragment in all three programs.
-/
theorem annotate_append {first second whole : Program}
    (joined : whole.body = first.body ++ second.body) (left : first.filename = whole.filename)
    (right : second.filename = whole.filename) (alike : first.SameAliases whole)
    (alike' : second.SameAliases whole) (settings : Settings) (path : Option String)
    : ∃ first' second' report report' total,
        first.annotate settings path = .ok (first', report)
        ∧ second.annotate settings path = .ok (second', report')
        ∧ whole.annotate settings path
          = .ok ({ whole with body := first'.body ++ second'.body }, total)
        ∧ total.details = report.details ++ report'.details
        ∧ total.components = report.components ++ report'.components
        ∧ total.attributesAdded = report.attributesAdded + report'.attributesAdded
        ∧ total.skipped = report.skipped
        ∧ total.skipped = report'.skipped := by
  by_cases guarded : whole.Guarded settings path
  · have skipped := annotate_of_guarded guarded
    have skippedLeft :=
      annotate_of_guarded ((guarded_iff_of_filename left settings path).mpr guarded)
    have skippedRight :=
      annotate_of_guarded ((guarded_iff_of_filename right settings path).mpr guarded)
    refine ⟨_, _, _, _, _, skippedLeft, skippedRight, ?_, rfl, rfl, rfl, rfl, rfl⟩
    rw [skipped, ← joined]
  · obtain ⟨a, c, readLeft, read, same⟩ := alike
    obtain ⟨b, c', readRight, read', same'⟩ := alike'
    obtain rfl : c = c' := Except.ok.inj (read.symm.trans read')
    have done := annotate_of_collect guarded read
    have doneLeft := annotate_of_collect
      (mt (guarded_iff_of_filename left settings path).mp guarded) readLeft
    have doneRight := annotate_of_collect
      (mt (guarded_iff_of_filename right settings path).mp guarded) readRight
    have contexts : Context.Alike { settings, aliases := a } { settings, aliases := c } :=
      ⟨rfl, rfl, same⟩
    have contexts' : Context.Alike { settings, aliases := b } { settings, aliases := c } :=
      ⟨rfl, rfl, same'⟩
    rw [contexts.annotateComponents_eq] at doneLeft
    rw [contexts'.annotateComponents_eq] at doneRight
    rw [annotateComponents_components joined] at done
    refine ⟨_, _, _, _, _, doneLeft, doneRight, done, rfl, ?_, ?_, rfl, rfl⟩
    · exact List.map_append
    · have summed (report : Report)
          : report.attributesAdded = (report.details.map (·.added)).sum :=
        rfl
      rw [summed, List.map_append, List.sum_append]
      rfl

/-- A component whose file has two names for a fragment. -/
def shelf : Program where
  filename := "Shop.tsx"
  body := [
    .group {} (.variableDeclaration "var") [
      .declarator {} (.leaf {} (.identifier "F"))
        (.wrap {} (.memberExpression "Fragment") (.leaf {} (.identifier "React"))),
      .declarator {} (.leaf {} (.identifier "G")) (.leaf {} (.identifier "F"))
    ],
    .wrap {} (.functionDeclaration (some "Shelf")) <| .group {} .blockStatement [
      .wrap {} .returnStatement <|
        .element {} (.leaf {} (.jsxIdentifier "F")) [] [
          .element {} (.leaf {} (.jsxIdentifier "ul")) [] [] true (some 82)
        ] false (some 78)
    ]
  ]

/-- Another component, whose file has the same names in another order. -/
def ware : Program where
  filename := "Shop.tsx"
  body := [
    .group {} (.variableDeclaration "var") [
      .declarator {} (.leaf {} (.identifier "G"))
        (.wrap {} (.memberExpression "Fragment") (.leaf {} (.identifier "React"))),
      .declarator {} (.leaf {} (.identifier "F")) (.leaf {} (.identifier "G"))
    ],
    .group {} (.variableDeclaration "const") [
      .declarator {} (.leaf {} (.identifier "Ware")) <|
        .wrap {} .arrowFunction <|
          .element {} (.leaf {} (.jsxIdentifier "li")) [] [] true (some 64)
    ]
  ]

/-- Both components in one file. -/
def shop : Program where
  filename := "Shop.tsx"
  body := shelf.body ++ ware.body

/-- The shelf and the ware gain two attributes each, alone as in one file. -/
theorem annotate_append_shop
    : shop.body = shelf.body ++ ware.body
      ∧ shelf.SameAliases shop
      ∧ ware.SameAliases shop
      ∧ ∃ shelf' ware' report report' total,
          shelf.annotate { annotateFragments := true } none = .ok (shelf', report)
          ∧ ware.annotate { annotateFragments := true } none = .ok (ware', report')
          ∧ shop.annotate { annotateFragments := true } none
            = .ok ({ shop with body := shelf'.body ++ ware'.body }, total)
          ∧ report.details ++ report'.details = [⟨"Shelf", 1, 2⟩, ⟨"Ware", 1, 2⟩]
          ∧ report.attributesAdded + report'.attributesAdded = 4 := by
  let settings : Settings := { annotateFragments := true }
  let aliases : Aliases := { fragments := ["G", "F"] }
  have joined : shop.body = shelf.body ++ ware.body := rfl
  have read : Aliases.collect shop = .ok aliases := rfl
  have alike : shelf.SameAliases shop :=
    ⟨aliases, aliases, rfl, read, fun _ => Iff.rfl, fun _ => Iff.rfl⟩
  have alike' : ware.SameAliases shop :=
    ⟨{ fragments := ["F", "G"] }, aliases, rfl, read, fun name => by simp [aliases, or_comm],
      fun _ => Iff.rfl⟩
  have open' : ¬ shop.Guarded settings none := by
    rw [Guarded]
    decide
  have details : (shop.annotateComponents { settings, aliases } (components shop)).2
      = [⟨"Shelf", 1, 2⟩, ⟨"Ware", 1, 2⟩] := by
    decide +kernel
  obtain ⟨shelf', ware', report, report', total, left, right, both, reports, _, added, _⟩ :=
    annotate_append joined rfl rfl alike alike' settings none
  have run := both.symm.trans (annotate_of_collect open' read)
  have whole : total = { details := [⟨"Shelf", 1, 2⟩, ⟨"Ware", 1, 2⟩] } := by
    rw [← details]
    exact congrArg Prod.snd (Except.ok.inj run)
  refine ⟨joined, alike, alike', shelf', ware', report, report', total, left, right, both, ?_, ?_⟩
  · rw [← reports, whole]
  · rw [← added, whole]
    rfl

end Ast.Program

end JsxProvenance
