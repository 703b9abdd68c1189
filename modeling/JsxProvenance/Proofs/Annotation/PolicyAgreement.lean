import JsxProvenance.Proofs.Annotation.Attribution
import JsxProvenance.Proofs.Annotation.Counts
import JsxProvenance.Proofs.Annotation.LegacyPolicy

/-! Where the two policies agree. The full policy writes the component name on the node that a root
hands it to, the legacy policy on the first hosts on the way down. A root that is a host is both, so
where all roots are hosts each visit writes the name that it hands under either policy.
-/

namespace JsxProvenance

open Ast

/-- A descent that stops at a node adds nothing below it. -/
theorem Descent.added_of_stopped {σ : Type} {d : Descent σ} {s : σ} {n : Node}
    (stopped : d.enter s n = none) (step : Step) (rest : Address)
    : d.added s n (step :: rest) = [] := by
  have nowhere : d.follow s n step = none := by
    rw [follow, stopped]
    cases n.jsxStep? step <;> rfl
  rw [added, nowhere]

-----------------------------------------------------------------------------------------
-- A visit to a host
-----------------------------------------------------------------------------------------

namespace Context

variable {c : Context} {root : Place}

/-- A root that is an element hands the name to itself. -/
theorem hands_of_element (element : classify (some c.aliases) root.node = .element) (place : Place)
    : c.Hands root place
      ↔ c.settings.Writes c.component
        ∧ root.address = place.address
        ∧ place.node.elementName ∉ c.settings.ignoredComponents := by
  rw [Hands, recipient?, element]
  simp

/-- What a host gains under the legacy policy is the component attribute, if it hands itself the
name.
-/
theorem filter_legacyInjection (root : Place) (host : c.IsHost root.node) (heard : ¬ c.Ignored)
    : (legacyInjection c root.node).additions.filter (·.1 == c.settings.attributeNames.component)
      = if c.Hands root root then c.componentAddition root.node else [] := by
  have hands := hands_of_element host.1 root
  by_cases openHost : OpenHost c root.node
  · have tag := (isIgnored_eq_false_iff.mp openHost.1.2).1
    have kept
        : (c.componentAddition root.node).filter (·.1 == c.settings.attributeNames.component)
          = c.componentAddition root.node :=
      List.filter_eq_self.mpr fun addition member =>
        beq_iff_eq.mpr
          (name_of_mem_componentAddition (List.mem_map_of_mem (f := (·.1)) member))
    rw [legacyInjection_of_openHost openHost, ← componentAddition, kept]
    split
    · rfl
    · next refused =>
        -- neither the tag nor the component is ignored, so the component has no name
        have unnamed : c.component = "" := by
          by_contra named
          exact refused (hands.mpr ⟨⟨named, fun listed => heard ⟨named, listed⟩⟩, rfl, tag⟩)
        simp [componentAddition, Node.missingAttribute, unnamed]
  · rw [legacyInjection_of_not_openHost openHost, if_neg]
    · rfl
    · intro handed
      obtain ⟨⟨_, unlisted⟩, _, tag⟩ := hands.mp handed
      exact openHost ⟨⟨host.1, isIgnored_eq_false_iff.mpr ⟨tag, fun _ => unlisted⟩⟩, host.2⟩

/-- Under the legacy policy a host ends the way down. -/
theorem added_pass_below_host (legacy : c.settings.policy = .legacy) {n : Node} (host : c.IsHost n)
    (step : Step) (rest : Address)
    : c.pass.added n (step :: rest) = [] := by
  by_cases ignored : c.Ignored
  · exact added_pass_of_ignored ignored n _
  · rw [pass_of_legacy ignored legacy, Pass.added]
    exact Descent.added_of_stopped ((enter_legacyDescent c n).mpr host) step rest

@[simp]
theorem isHost_redraw (c : Context) (r : Redraw) (n : Node) : c.IsHost (n.redraw r) ↔ c.IsHost n := by
  simp [IsHost]

end Context

namespace Ast.Program

variable {c : Context} {p q : Program} {root place : Place}

/-- Under the legacy policy a visit to a host writes the name that it hands: the host keeps it for
itself, and ends the way down.
-/
theorem writesHanded_of_legacy (has : p.Has root) (there : p.Has place)
    (legacy : c.settings.policy = .legacy) (host : c.IsHost root.node)
    : p.WritesHanded c root place := by
  intro added
  rw [addedAt_of_get? (get?_redraw_of_has has _)]
  have drawn := (Context.isHost_redraw c ((Redraw.adding added).under root.address) _).mpr host
  by_cases same : root.address = place.address
  · obtain rfl := has.unique there same
    have here := addedUnder_append
      (c.pass.added (root.node.redraw ((Redraw.adding added).under root.address))) root.address []
    rw [List.append_nil] at here
    rw [here]
    by_cases ignored : c.Ignored
    · rw [Context.added_pass_of_ignored ignored, if_neg fun hands => hands.1.2 ignored.2]
      rfl
    · rw [Context.pass_of_legacy ignored legacy]
      refine (Context.filter_legacyInjection (root.redraw (.adding added)) drawn ignored).trans
        (if_congr ?_ rfl rfl)
      rw [Context.hands_of_element drawn.1, Context.hands_of_element host.1]
      simp [Place.redraw]
  · have refused : ¬ c.Hands root place :=
      fun hands => same ((Context.hands_of_element host.1 place).mp hands).2.1
    rw [if_neg refused, List.filter_eq_nil_iff]
    intro addition gained
    obtain ⟨way, placed⟩ := exists_append_of_addedUnder (List.ne_nil_of_mem gained)
    rw [placed, addedUnder_append] at gained
    cases way with
    | nil => exact absurd (by rw [placed, List.append_nil]) same
    | cons step rest =>
        rw [Context.added_pass_below_host legacy drawn] at gained
        cases gained

/-- A visit to a host writes the name that it hands, under either policy. -/
theorem writesHanded_of_host (has : p.Has root) (there : p.Has place) (host : c.IsHost root.node)
    : p.WritesHanded c root place := by
  cases policy : c.settings.policy with
  | full => exact writesHanded_of_full has there policy
  | legacy => exact writesHanded_of_legacy has there policy host

-----------------------------------------------------------------------------------------
-- A run over hosts
-----------------------------------------------------------------------------------------

/-- The component name that an element gains from components whose roots are elements: that of the
first component with a root there whose name is written. There is none if the tag is ignored or the
element carries the component attribute.
-/
def nameGained? (settings : Settings) (cs : List Component) (place : Place) : Option String :=
  if place.node.elementName ∈ settings.ignoredComponents
      ∨ place.node.hasAttribute settings.attributeNames.component = true
  then none
  else (cs.find? fun component => component.NamesAt settings place.address).map (·.name)

/-- The components that hand a name to an element are those with a root there, if all roots are
elements and the tag is not ignored.
-/
theorem any_hands_of_elements {component : Component}
    (elements : ∀ root ∈ component.roots, classify (some c.aliases) root.node = .element)
    : (component.roots.any fun root => (c.withComponent component.name).Hands root place)
      = decide (place.node.elementName ∉ c.settings.ignoredComponents
          ∧ component.NamesAt c.settings place.address) := by
  have hands (root : Place) (rooted : root ∈ component.roots) :=
    Context.hands_of_element (c := c.withComponent component.name) (elements root rooted) place
  rw [Bool.eq_iff_iff, List.any_eq_true, decide_eq_true_iff]
  constructor
  · rintro ⟨root, rooted, handed⟩
    obtain ⟨writes, same, tag⟩ := (hands root rooted).mp (of_decide_eq_true handed)
    exact ⟨tag, writes, List.mem_map.mpr ⟨root, rooted, same⟩⟩
  · rintro ⟨tag, writes, placed⟩
    obtain ⟨root, rooted, same⟩ := List.mem_map.mp placed
    exact ⟨root, rooted, decide_eq_true ((hands root rooted).mpr ⟨writes, same, tag⟩)⟩

/-- The first visit that hands a name to an element hands the one that it gains. -/
theorem name_find?_visits {cs : List Component}
    (elements : ∀ component ∈ cs, ∀ root ∈ component.roots,
      classify (some c.aliases) root.node = .element)
    (bare : place.node.hasAttribute c.settings.attributeNames.component = false)
    : ((visits cs).find? fun visit => (c.withComponent visit.1.name).Hands visit.2 place).map
          (·.1.name)
      = nameGained? c.settings cs place := by
  have first
      : ((visits cs).find? fun visit => (c.withComponent visit.1.name).Hands visit.2 place).map (·.1)
        = cs.find? fun component =>
            place.node.elementName ∉ c.settings.ignoredComponents
            ∧ component.NamesAt c.settings place.address :=
    (find?_visits _ cs).trans <| List.find?_congr fun component member =>
      any_hands_of_elements (elements component member)
  have names := congrArg (Option.map (·.name)) first
  rw [Option.map_map] at names
  refine names.trans ?_
  by_cases tag : place.node.elementName ∈ c.settings.ignoredComponents
  · have unnamed : (cs.find? fun _ => false) = none := List.find?_eq_none.mpr fun _ _ => nofun
    simp [nameGained?, tag, unnamed]
  · simp [nameGained?, tag, bare]

/-- Of what visits to hosts add to an element, the component attribute has the name that it gains. -/
theorem filter_addedBy_hosts {cs : List Component} (has : ∀ visit ∈ visits cs, p.Has visit.2)
    (hosts : ∀ component ∈ cs, ∀ root ∈ component.roots, c.IsHost root.node) (there : p.Has place)
    (element : place.node.isElement = true)
    : (p.addedBy c (visits cs) place.address).filter (·.1 == c.settings.attributeNames.component)
      = (nameGained? c.settings cs place).toList.map (c.settings.attributeNames.component, ·) := by
  cases present : place.node.hasAttribute c.settings.attributeNames.component with
  | true =>
      rw [nameGained?, if_pos (Or.inr present)]
      refine List.filter_eq_nil_iff.mpr fun addition member same => ?_
      have missing := (addedBy_fresh has there element).2 addition.1
        (List.mem_map_of_mem (f := (·.1)) member)
      rw [beq_iff_eq.mp same, present] at missing
      cases missing
  | false =>
      have written (visit : Component × Place) (among : visit ∈ visits cs)
          : p.WritesHanded (c.withComponent visit.1.name) visit.2 place :=
        writesHanded_of_host (has visit among) there
          (hosts visit.1 (mem_visits.mp among).1 visit.2 (mem_visits.mp among).2)
      have named := name_find?_visits
        (fun component member root rooted => (hosts component member root rooted).1) present
      rw [filter_addedBy written element present, ← named]
      cases (visits cs).find? fun visit => (c.withComponent visit.1.name).Hands visit.2 place <;> rfl

/-- Every root of a component that is discovered in the file is a host element. -/
def HostRoots (settings : Settings) (path : Option String) (p : Program) : Prop :=
  ∀ aliases,
    Aliases.collect p = .ok aliases
    → ∀ component ∈ discover p path settings.incompatiblePackages,
        ∀ root ∈ component.roots, Context.IsHost { settings, aliases } root.node

/-- The attributes of a name that the node at an address carries. -/
def attributesNamedAt (p : Program) (name : String) (a : Address) : List Node :=
  (p.get? a).elim [] (·.attributesNamed name)

/-- A run has named the elements of a program: they are where they were, and each has the component
attributes that it had, and one with the name that it gains.
-/
structure Named (settings : Settings) (path : Option String) (p q : Program) : Prop where
  elements : q.elementPlaces.map (·.address) = p.elementPlaces.map (·.address)
  attributes
    : ∀ place ∈ p.elementPlaces,
        q.attributesNamedAt settings.attributeNames.component place.address
          = place.node.attributesNamed settings.attributeNames.component
            ++ Node.insertedAttributes place.node.position
                ((nameGained? settings (discover p path settings.incompatiblePackages)
                    place).toList.map (settings.attributeNames.component, ·))

/-- A run over hosts names the elements, under either policy. -/
theorem annotate_named {settings : Settings} {path : Option String} {report : Report}
    (hosts : p.HostRoots settings path) (h : p.annotate settings path = .ok (q, report))
    : p.Named settings path q := by
  obtain ⟨aliases, visited, outcome⟩ := annotate_visits h
  have drawn
      : q = p.redraw (.adding (p.addedBy { settings, aliases }
          (visits (discover p path settings.incompatiblePackages)))) := by
    rw [← annotateVisits_eq, visited]
  have areHosts
      : ∀ component ∈ discover p path settings.incompatiblePackages, ∀ root ∈ component.roots,
          Context.IsHost { settings, aliases } root.node := by
    rcases outcome with ⟨_, bare⟩ | ⟨_, _, read⟩
    · rw [bare]
      nofun
    · exact hosts aliases read
  refine ⟨?_, fun place member => ?_⟩
  · rw [drawn]
    exact (grown_redraw _ p).elements
  · obtain ⟨within, element⟩ := List.mem_filter.mp member
    have there := has_of_mem_walk within
    have has := visits_has (discover_sublist p path settings.incompatiblePackages)
    have gained := filter_addedBy_hosts (c := { settings, aliases }) has areHosts there element
    rw [← gained, ← Place.attributesNamed_redraw_adding _ element, attributesNamedAt, drawn,
      get?_redraw_of_has there]
    rfl

/-- Runs over hosts that return agree, whatever their policies are: on the names of the elements, on
the components that they report, and on whether the file is skipped.
-/
structure Agree (settings : Settings) (path : Option String) (p : Program)
    (one other : Program × Report)
    : Prop where
  named : p.Named settings path one.1
  named' : p.Named settings path other.1
  attributes
    : ∀ place ∈ p.elementPlaces,
        one.1.attributesNamedAt settings.attributeNames.component place.address
          = other.1.attributesNamedAt settings.attributeNames.component place.address
  components : one.2.components = other.2.components
  skipped : one.2.skipped = other.2.skipped

theorem agree_of_runs {settings : Settings} {path : Option String} {policy policy' : Policy}
    {one other : Program × Report} (hosts : p.HostRoots settings path)
    (h : p.annotate { settings with policy } path = .ok one)
    (h' : p.annotate { settings with policy := policy' } path = .ok other)
    : p.Agree settings path one other := by
  have named : p.Named { settings with policy } path one.1 := annotate_named hosts h
  have named' : p.Named { settings with policy := policy' } path other.1 := annotate_named hosts h'
  obtain ⟨components, skipped⟩ := annotate_reports h
  obtain ⟨components', skipped'⟩ := annotate_reports h'
  exact {
    named := ⟨named.elements, named.attributes⟩
    named' := ⟨named'.elements, named'.attributes⟩
    attributes := fun place member =>
      (named.attributes place member).trans (named'.attributes place member).symm
    components := components.trans components'.symm
    skipped := Bool.eq_iff_iff.mpr (skipped.trans skipped'.symm)
  }

/-- The policies agree where both define the component attribute. On a file all of whose roots are
hosts, runs that differ in their policy alone add the component attribute to the same elements with
the same values, and report the same components; or both fail with the same fault.
-/
theorem annotate_policies_agree {settings : Settings} {path : Option String}
    (hosts : p.HostRoots settings path)
    : (∃ full legacy,
        p.annotate { settings with policy := .full } path = .ok full
        ∧ p.annotate { settings with policy := .legacy } path = .ok legacy
        ∧ p.Agree settings path full legacy)
      ∨ ∃ fault,
          Aliases.collect p = .error fault
          ∧ p.annotate { settings with policy := .full } path = .error fault
          ∧ p.annotate { settings with policy := .legacy } path = .error fault := by
  have guarded_iff (policy : Policy)
      : p.Guarded { settings with policy } path ↔ p.Guarded settings path :=
    Iff.rfl
  by_cases guarded : p.Guarded settings path
  · have skipped (policy : Policy) : p.annotate { settings with policy } path = _ :=
      annotate_of_guarded ((guarded_iff policy).mpr guarded)
    exact Or.inl ⟨_, _, skipped .full, skipped .legacy,
      agree_of_runs hosts (skipped .full) (skipped .legacy)⟩
  · have unguarded (policy : Policy) : ¬ p.Guarded { settings with policy } path :=
      mt (guarded_iff policy).mp guarded
    cases read : Aliases.collect p with
    | ok aliases =>
        have full := annotate_of_collect (unguarded .full) read
        have legacy := annotate_of_collect (unguarded .legacy) read
        exact Or.inl ⟨_, _, full, legacy, agree_of_runs hosts full legacy⟩
    | error fault =>
        exact Or.inr ⟨fault, rfl, annotate_of_fault (unguarded .full) read,
          annotate_of_fault (unguarded .legacy) read⟩

/-- A class without a name that shares a root with the function in its render method and has a root
that is annotated, a native view with a text in it, and a component whose name is ignored.
-/
def menu : Program where
  filename := "Menu.tsx"
  body := [
    .group {} (.classDeclaration none) [
      .wrap {} (.methodDefinition "render") <| .group {} .blockStatement [
        .wrap {} (.functionDeclaration (some "Dish")) <| .group {} .blockStatement [
          .wrap {} .returnStatement <|
            .element {} (.leaf {} (.jsxIdentifier "li")) [] [
              .element {} (.leaf {} (.jsxIdentifier "Card")) [] [] true (some 62)
            ] false (some 56)
        ],
        .wrap {} .returnStatement <|
          .element {} (.leaf {} (.jsxIdentifier "ul")) [
            .leaf {} (.jsxAttribute "data-sentry-component" (some "Mine") false)
          ] [] true (some 119)
      ]
    ],
    .declarator {} (.leaf {} (.identifier "Price")) <| .wrap {} .arrowFunction <|
      .element {} (.leaf {} (.jsxIdentifier "View")) [] [
        .element {} (.leaf {} (.jsxIdentifier "Text")) [] [] true (some 155)
      ] false (some 149),
    .wrap {} (.functionDeclaration (some "Empty")) <| .group {} .blockStatement [
      .wrap {} .returnStatement <|
        .element {} (.leaf {} (.jsxIdentifier "p")) [] [] true (some 200)
    ]
  ]

/-- Settings under which fragments are annotated, and the last component of the menu is ignored. -/
def menuSettings : Settings where
  annotateFragments := true
  ignoredComponents := ["Empty"]
  sourceFileName := some "Menu.tsx"

/-- All roots of the menu are hosts. Either policy names the list item after the dish, since the class
has no name, and the view after the price, and leaves the others as they are.
-/
theorem annotate_policies_agree_menu
    : menu.HostRoots menuSettings none
      ∧ ∃ full legacy,
          menu.annotate { menuSettings with policy := .full } none = .ok full
          ∧ menu.annotate { menuSettings with policy := .legacy } none = .ok legacy
          ∧ menu.Agree menuSettings none full legacy
          ∧ full.2.components = ["", "Dish", "Price", "Empty"]
          ∧ menu.elementPlaces.map (nameGained? menuSettings (components menu))
            = [some "Dish", none, none, some "Price", none, none] := by
  have read : Aliases.collect menu = .ok {} := rfl
  have hosts : menu.HostRoots menuSettings none := by
    intro aliases read'
    obtain rfl : {} = aliases := Except.ok.inj (read.symm.trans read')
    decide +kernel
  refine ⟨hosts, ?_⟩
  rcases annotate_policies_agree hosts with
    ⟨full, legacy, returned, returned', agree⟩ | ⟨fault, failed, _⟩
  · refine ⟨full, legacy, returned, returned', agree, ?_, by decide +kernel⟩
    rw [(annotate_reports returned).1]
    decide +kernel
  · cases read.symm.trans failed

end Ast.Program
end JsxProvenance
