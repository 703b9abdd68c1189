import JsxProvenance.Proofs.Annotation.FullPolicy
import JsxProvenance.Proofs.Annotation.Ignoring

/-! The legacy policy node by node. A host element ends the way down, whether it is marked or not, so
the nodes that are marked are hosts without a host above them in the region of the root. What stands
between the root and a host makes no difference.
-/

namespace JsxProvenance

open Ast

-----------------------------------------------------------------------------------------
-- Where a descent goes on
-----------------------------------------------------------------------------------------

/-- A descent that meets a node did not stop at any node above it, by induction on the address. -/
theorem Descent.enter_of_meet {σ : Type} {d : Descent σ} {s : σ} {root above : Place}
    {way : Address} {met : σ × Node} (found : d.meet s root.node way = some met)
    (reached : root.Reaches above) (proper : above.IsAbove ⟨root.address ++ way, met.2⟩)
    : ∃ t inside, d.enter t above.node = some inside := by
  induction way generalizing s root with
  | nil =>
      obtain ⟨⟨rest, ends⟩, other⟩ := proper
      obtain ⟨deeper, placed, _⟩ := reached.exists_way
      have nothing : deeper ++ rest = [] := by
        rw [placed, List.append_assoc] at ends
        exact List.append_cancel_left ends
      rw [placed, (List.append_eq_nil_iff.mp nothing).1] at other
      exact absurd rfl other
  | cons step later ih =>
      obtain ⟨⟨below, part⟩, followed, found⟩ := Option.bind_eq_some_iff.mp found
      obtain ⟨_, _, inward⟩ := Option.bind_eq_some_iff.mp followed
      obtain ⟨inside, entered, _⟩ := Option.bind_eq_some_iff.mp inward
      rcases Place.reaches_iff.mp reached with rfl | ⟨child, member, deeper⟩
      · exact ⟨s, inside, entered⟩
      · have next := mem_jsxChildren_of_follow followed root.address
        obtain ⟨step', placed, _⟩ := Place.step?_of_mem_jsxChildren member
        obtain ⟨rest, placed', _⟩ := deeper.exists_way
        -- the child that leads on to the node above is the one that the descent follows
        have same : child.address = root.address ++ [step] := by
          obtain ⟨tail, ends⟩ := proper.1
          rw [placed', placed, List.append_assoc, List.append_assoc] at ends
          have steps := List.append_cancel_left ends
          rw [List.singleton_append, List.cons.injEq] at steps
          rw [placed, steps.1]
        obtain rfl : child = ⟨root.address ++ [step], part⟩ :=
          ((Place.Reaches.refl root).child member).eq_of_address
            ((Place.Reaches.refl root).child next) same
        refine ih found deeper ?_
        rwa [List.append_assoc]

namespace Context

variable {c : Context} {root place : Place}

-----------------------------------------------------------------------------------------
-- Hosts and marks
-----------------------------------------------------------------------------------------

/-- An element with the name of a host. -/
def IsHost (c : Context) (n : Node) : Prop :=
  classify (some c.aliases) n = .element ∧ isHostElement n.elementName = true

instance (c : Context) (n : Node) : Decidable (c.IsHost n) :=
  inferInstanceAs (Decidable (_ ∧ _))

/-- A node of a region is marked if it is a host, no host stands above it in the region, it is not
ignored, and it does not carry the component attribute.
-/
def Marks (c : Context) (root place : Place) : Prop :=
  c.IsHost place.node
  ∧ (∀ above ∈ root.region, above.IsAbove place → ¬ c.IsHost above.node)
  ∧ place.node.elementName ∉ c.settings.ignoredComponents
  ∧ ¬ place.node.hasAttribute c.settings.attributeNames.component = true

instance (c : Context) (root place : Place) : Decidable (c.Marks root place) :=
  inferInstanceAs (Decidable (_ ∧ _ ∧ _ ∧ _))

/-- The component attribute, for a node that is marked. -/
def mark (c : Context) (root place : Place) : List (String × String) :=
  if c.Marks root place then [(c.settings.attributeNames.component, c.component)] else []

/-- The mark of the node of a region at an address. There is none outside of the region. -/
def markAt (c : Context) (root : Place) (a : Address) : List (String × String) :=
  root.givenAt (c.mark root) a

theorem enter_legacyDescent (c : Context) (n : Node)
    : (legacyDescent c).enter () n = none ↔ c.IsHost n := by
  simp [legacyDescent, target_legacyInjection, IsHost]

/-- The legacy policy meets a node of the region just if there is no host above it. -/
theorem meet_legacyDescent_iff (reached : root.Reaches place) {way : Address}
    (placed : place.address = root.address ++ way)
    : (legacyDescent c).meet () root.node way = some ((), place.node)
      ↔ ∀ above ∈ root.region, above.IsAbove place → ¬ c.IsHost above.node := by
  constructor
  · intro met above member proper host
    have isAbove : above.IsAbove ⟨root.address ++ way, place.node⟩ := by
      rwa [← placed]
    obtain ⟨_, inside, entered⟩ :=
      Descent.enter_of_meet met (Place.mem_region_iff.mp member) isAbove
    rw [(enter_legacyDescent c above.node).mpr host] at entered
    cases entered
  · intro hostless
    have onward (above : Place) (among : root.Reaches above) (proper : above.IsAbove place)
        (_ : Unit)
        : ∃ inside, (legacyDescent c).enter () above.node = some inside := by
      refine Option.ne_none_iff_exists'.mp fun stopped => ?_
      exact hostless above (Place.mem_region_iff.mpr among) proper
        ((enter_legacyDescent c above.node).mp stopped)
    obtain ⟨way', _, placed', met⟩ := Descent.exists_meet reached onward ()
    obtain rfl : way = way' := List.append_cancel_left (placed.symm.trans placed')
    exact met

/-- What a host gains that is not ignored. -/
theorem additions_legacyInjection (named : c.component ≠ "") (heard : ¬ c.Ignored) (n : Node)
    : (legacyInjection c n).additions
      = if c.IsHost n ∧ n.elementName ∉ c.settings.ignoredComponents
          ∧ ¬ n.hasAttribute c.settings.attributeNames.component = true
        then [(c.settings.attributeNames.component, c.component)]
        else [] := by
  have unignored : c.component ≠ "" → c.component ∉ c.settings.ignoredComponents :=
    fun proper listed => heard ⟨proper, listed⟩
  by_cases host : OpenHost c n
  · have isHost : c.IsHost n := ⟨host.1.1, host.2⟩
    have unlisted := (isIgnored_eq_false_iff.mp host.1.2).1
    rw [legacyInjection_of_openHost host, Node.missingAttribute]
    exact if_congr (by simp [isHost, unlisted, named]) rfl rfl
  · rw [legacyInjection_of_not_openHost host, if_neg]
    rintro ⟨isHost, unlisted, _⟩
    exact host ⟨⟨isHost.1, isIgnored_eq_false_iff.mpr ⟨unlisted, unignored⟩⟩, isHost.2⟩

/-- The legacy policy adds the marks of the region. -/
theorem added_eq_markAt (named : c.component ≠ "") (heard : ¬ c.Ignored) (root : Node)
    : (legacyDescent c).added () root = c.markAt ⟨[], root⟩ := by
  apply Descent.added_eq_givenAt
  · intro place _ reached met
    have hostless := (meet_legacyDescent_iff reached rfl).mp met
    change (legacyInjection c place.node).additions = c.mark ⟨[], root⟩ place
    rw [additions_legacyInjection named heard]
    exact if_congr (and_congr_right' (and_iff_right hostless).symm) rfl rfl
  · intro place reached missed
    refine if_neg fun marked => ?_
    have met := (meet_legacyDescent_iff (c := c) reached rfl).mpr marked.2.1
    cases missed.symm.trans met

/-- The legacy policy counts the marks of the region. -/
theorem count_eq_countP (named : c.component ≠ "") (heard : ¬ c.Ignored) (root : Node)
    : (legacyDescent c).count () root
      = (Place.region ⟨[], root⟩).countP (c.Marks ⟨[], root⟩ ·) := by
  have added := added_eq_markAt named heard root
  have length_mark (place : Place)
      : (c.mark ⟨[], root⟩ place).length = if c.Marks ⟨[], root⟩ place then 1 else 0 := by
    rw [mark]
    split <;> rfl
  have sum_marks (places : List Place)
      : (places.map fun place => (c.mark ⟨[], root⟩ place).length).sum
        = places.countP (c.Marks ⟨[], root⟩ ·) := by
    induction places with
    | nil => rfl
    | cons place later ih =>
        rw [List.map_cons, List.sum_cons, ih, List.countP_cons, length_mark, Nat.add_comm]
        simp
  rw [Descent.count_eq_givenBelow (legacyDescent_lawful c) () root [] (congrFun added.symm),
    ← sum_marks]
  refine congrArg List.sum (List.map_congr_left fun place member => ?_)
  exact congrArg List.length (Place.givenAt_of_reaches (Place.mem_region_iff.mp member))

/-- Without a component name the legacy policy leaves a tree alone. -/
theorem annotateLegacy_unnamed (unnamed : c.component = "") (root : Node)
    : annotateLegacy c root = (root, 0) := by
  have nothing : (legacyDescent c).added () root = fun _ => [] := by
    funext a
    rw [Descent.added_eq_meet]
    cases (legacyDescent c).meet () root a with
    | none => rfl
    | some met =>
        change (legacyInjection c met.2).additions = []
        by_cases host : OpenHost c met.2
        · simp [legacyInjection_of_openHost host, Node.missingAttribute, unnamed]
        · exact legacyInjection_of_not_openHost host
  have counted : (legacyDescent c).count () root = 0 :=
    (Descent.count_eq_zero_iff (legacyDescent_lawful c) () root).mpr (congrFun nothing)
  rw [annotateLegacy_eq, nothing, counted, Node.redraw_adding_nothing]

end Context

/-- Annotation from a root under the legacy policy. It leaves the root alone if there is no component
name or the name is ignored. Else it adds the component attribute to the nodes of the root's region
that are marked, changes nothing else, and counts them. A host has no marks below it, and whether
fragments are annotated, which elements are ignored and the source file make no difference.
-/
theorem annotateRoot_legacy {c : Context} (legacy : c.settings.policy = .legacy) (root : Node)
    : (c.component = "" ∨ c.component ∈ c.settings.ignoredComponents
        → annotateRoot c root = (root, 0))
      ∧ (c.component ≠ "" → c.component ∉ c.settings.ignoredComponents
        → annotateRoot c root
          = (root.redraw (.adding (c.markAt ⟨[], root⟩)),
              (Place.region ⟨[], root⟩).countP (c.Marks ⟨[], root⟩ ·)))
      ∧ (∀ above ∈ Place.region ⟨[], root⟩, c.IsHost above.node →
          ∀ place ∈ Place.region ⟨[], root⟩, above.IsAbove place →
            c.markAt ⟨[], root⟩ place.address = [])
      ∧ ∀ fragments elements file,
          annotateRoot
              {
                c with
                settings := {
                  c.settings with
                  annotateFragments := fragments
                  ignoredElements := elements
                  sourceFileName := file
                }
              }
              root
            = annotateRoot c root := by
  refine ⟨?_, ?_, ?_, ?_⟩
  · intro silent
    by_cases named : c.component = ""
    · rw [annotateRoot, legacy, Context.annotateLegacy_unnamed named]
      simp
    · simp [annotateRoot, named, silent.resolve_left named]
  · intro named unlisted
    have heard : ¬ c.Ignored := fun ignored => unlisted ignored.2
    rw [annotateRoot_eq, Context.pass_of_legacy heard legacy, Pass.added, Pass.count,
      Context.added_eq_markAt named heard, Context.count_eq_countP named heard]
  · intro above among host place member proper
    have reached := Place.mem_region_iff.mp member
    refine (Place.givenAt_of_reaches reached).trans (if_neg fun marked => ?_)
    exact marked.2.1 above among proper host
  · intro fragments elements file
    rw [annotateRoot, annotateRoot, legacy]
    simp only [annotateLegacy_eq]
    rfl

/-- A fragment with cards and lists in it: a card that contains a box with a text inside, a list that
is ignored, and a bold text that is annotated.
-/
def panel : Node :=
  .group {} .jsxFragment [
    .element {} (.leaf {} (.jsxIdentifier "Card")) [] [
      .element {} (.leaf {} (.jsxIdentifier "div")) [] [
        .element {} (.leaf {} (.jsxIdentifier "span")) [] [] true (some 30)
      ] false (some 20),
      .element {} (.leaf {} (.jsxIdentifier "View")) [] [] true (some 50)
    ] false (some 10),
    .element {} (.leaf {} (.jsxIdentifier "ul")) [] [
      .element {} (.leaf {} (.jsxIdentifier "li")) [] [] true (some 70)
    ] false (some 60),
    .element {} (.leaf {} (.jsxIdentifier "b")) [
      .leaf {} (.jsxAttribute "data-sentry-component" (some "Bold") false)
    ] [
      .element {} (.leaf {} (.jsxIdentifier "i")) [] [] true (some 90)
    ] false (some 80)
  ]

/-- A context in which a component shows a panel, and lists are ignored. -/
def panelContext : Context where
  settings := { policy := .legacy, ignoredComponents := ["ul", "Empty"] }
  component := "Panel"

/-- The box and the view in the card are marked. The list and the bold text are not, and shield what
stands in them. Without a name, and for a component that is ignored, nothing is done.
-/
theorem annotateRoot_legacy_panel
    : annotateRoot panelContext panel
        = (panel.redraw (.adding (panelContext.markAt ⟨[], panel⟩)), 2)
      ∧ (Place.region ⟨[], panel⟩).map (panelContext.mark ⟨[], panel⟩)
        = [
          [],
          [],
          [("data-sentry-component", "Panel")],
          [],
          [("data-sentry-component", "Panel")],
          [],
          [],
          [],
          []
        ]
      ∧ annotateRoot (panelContext.withComponent "") panel = (panel, 0)
      ∧ annotateRoot (panelContext.withComponent "Empty") panel = (panel, 0) := by
  refine ⟨?_, by decide +kernel, ?_, ?_⟩
  · rw [(annotateRoot_legacy (c := panelContext) rfl panel).2.1 (by decide) (by decide)]
    exact congrArg (Prod.mk _) (by decide +kernel)
  · exact (annotateRoot_legacy (c := panelContext.withComponent "") rfl panel).1 (.inl rfl)
  · exact (annotateRoot_legacy (c := panelContext.withComponent "Empty") rfl panel).1
      (.inr (by decide))

end JsxProvenance
