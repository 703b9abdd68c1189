import JsxProvenance.Proofs.Annotation.Frame

/-! Attributes over whole histories of runs. A run gives an element a name only if the element does
not carry it, and at most once, so over any sequence of runs no name is written twice and no
attribute is taken away, replaced or changed.
-/

namespace JsxProvenance.Ast

-----------------------------------------------------------------------------------------
-- Attributes of a name
-----------------------------------------------------------------------------------------

namespace Node

/-- The JSX attributes of a name that a node carries, in order. -/
def attributesNamed (n : Node) (name : String) : List Node :=
  n.attributes.filter (isAttribute name)

/-- The element with its JSX attributes only, without spreads and all else. -/
def withoutSpreads : Node → Node
  | element p name attrs children sc off => element p name (attrs.filter isMark) children sc off
  | n => n

theorem isMark_of_isAttribute {n : Node} {name : String} (named : n.isAttribute name = true)
    : n.isMark = true := by
  cases n with
  | leaf position form => cases form <;> first | rfl | cases named
  | _ => cases named

theorem hasAttribute_withoutSpreads (n : Node) (name : String)
    : n.withoutSpreads.hasAttribute name = n.hasAttribute name := by
  cases n with
  | element p tag attrs children sc off =>
      have same : (fun n => isMark n && isAttribute name n) = isAttribute name := by
        funext n
        cases named : n.isAttribute name with
        | false => exact Bool.and_false _
        | true => rw [isMark_of_isAttribute named, Bool.true_and]
      rw [withoutSpreads, hasAttribute, hasAttribute, attributes, attributes, List.any_filter, same]
  | _ => rfl

/-- A spread never counts as present: each policy gives an element what it would give it without
its spreads.
-/
theorem injection_withoutSpreads (c : Context) (n : Node)
    : fullInjection c n.withoutSpreads = fullInjection c n
      ∧ legacyInjection c n.withoutSpreads = legacyInjection c n := by
  have kind : classify (some c.aliases) n.withoutSpreads = classify (some c.aliases) n := by
    cases n <;> rfl
  have name : n.withoutSpreads.elementName = n.elementName := by
    cases n <;> rfl
  simp only [fullInjection, legacyInjection, missingAttribute, hasAttribute_withoutSpreads, kind,
    name, and_self]

/-- An attribute is present just if there is a JSX attribute of its name. -/
theorem hasAttribute_iff_attributesNamed {n : Node} {name : String} (proper : name ≠ "")
    : n.hasAttribute name = true ↔ n.attributesNamed name ≠ [] := by
  simp [hasAttribute, attributesNamed, proper, List.filter_eq_nil_iff]

theorem attributesNamed_eq_nil {n : Node} {name : String} (proper : name ≠ "")
    (bare : n.hasAttribute name = false)
    : n.attributesNamed name = [] := by
  by_contra some
  rw [(hasAttribute_iff_attributesNamed proper).mpr some] at bare
  cases bare

/-- Attributes that are given stand behind those of the name that were there. -/
theorem attributesNamed_redraw_adding (added : Address → List (String × String)) {n : Node}
    (element : n.isElement = true) (name : String)
    : (n.redraw (.adding added)).attributesNamed name
      = n.attributesNamed name
        ++ insertedAttributes n.position ((added []).filter (·.1 == name)) := by
  have same (added : Address → List (String × String)) (n : Node)
      : Option.guard (isAttribute name) (n.redraw (.adding added))
        = Option.guard (isAttribute name) n := by
    cases n with
    | leaf p form => cases form <;> rfl
    | _ => rfl
  cases n with
  | element p tag attrs children sc off =>
      have kept := filterMap_listRedraw (r := fun i => (Redraw.adding added).below (.attribute i))
        (fun i n => same (fun a => added (.attribute i :: a)) n) attrs
      rw [List.filterMap_eq_filter] at kept
      have given : ((Redraw.adding added).gained p).filter (isAttribute name)
          = insertedAttributes p ((added []).filter (·.1 == name)) := by
        rw [Redraw.gained, insertedAttributes, List.filter_map]
        rfl
      rw [attributesNamed, redraw, attributes, List.filter_append, kept, given]
      rfl
  | _ => cases element

end Node

theorem Place.attributesNamed_redraw_adding (added : Address → List (String × String)) {place : Place}
    (element : place.node.isElement = true) (name : String)
    : (place.redraw (.adding added)).node.attributesNamed name
      = place.node.attributesNamed name
        ++ Node.insertedAttributes place.node.position
            ((added place.address).filter (·.1 == name)) := by
  have here := Node.attributesNamed_redraw_adding (fun b => added (place.address ++ b)) element name
  rwa [List.append_nil] at here

-----------------------------------------------------------------------------------------
-- One run
-----------------------------------------------------------------------------------------

namespace Program

variable {p : Program} {place : Place}

/-- Additions give no element a name twice, or one that it carries. -/
def Fresh (p : Program) (added : Address → List (String × String)) : Prop :=
  ∀ place,
    p.Has place
    → place.node.isElement = true
    → ((added place.address).map (·.1)).Nodup
      ∧ ∀ name ∈ (added place.address).map (·.1),
          name ≠ "" ∧ place.node.hasAttribute name = false

theorem fresh_nothing (p : Program) : p.Fresh fun _ => [] :=
  fun _ _ _ => ⟨.nil, fun _ member => absurd member List.not_mem_nil⟩

theorem fresh_addedBy {c : Context} {visited : List (Component × Place)}
    (has : ∀ visit ∈ visited, p.Has visit.2)
    : p.Fresh (p.addedBy c visited) := by
  intro place there element
  obtain ⟨once, absent⟩ := addedBy_fresh has there element
  refine ⟨once, fun name member => ⟨?_, absent name member⟩⟩
  obtain ⟨⟨_, value⟩, added, rfl⟩ := List.mem_map.mp member
  obtain ⟨_, _, _, _, _, offered⟩ := mem_addedBy has added
  exact offered.proper

/-- The program after a run. The aliases are read before anything is written, so a run that faults
leaves the program as it is.
-/
def afterRun (p : Program) (settings : Settings) (path : Option String) : Program :=
  match p.annotate settings path with
  | .ok (q, _) => q
  | .error _ => p

/-- The program after several runs in turn, each with its own settings and path. -/
def afterRuns (p : Program) (runs : List (Settings × Option String)) : Program :=
  runs.foldl (fun p run => p.afterRun run.1 run.2) p

/-- A run gives the program fresh attributes, none if it faults. -/
theorem afterRun_eq (p : Program) (settings : Settings) (path : Option String)
    : ∃ added, p.afterRun settings path = p.redraw (.adding added) ∧ p.Fresh added := by
  unfold afterRun
  split
  · next q report returned =>
      obtain ⟨aliases, visited, _⟩ := annotate_visits returned
      have sublist := discover_sublist p path settings.incompatiblePackages
      refine ⟨_, ?_, fresh_addedBy (c := { settings, aliases }) (visits_has sublist)⟩
      rw [← annotateVisits_eq, visited]
  · exact ⟨fun _ => [], p.redraw_adding_nothing.symm, p.fresh_nothing⟩

/-- An element that is given fresh attributes has as many of a name as before, or it had none and
has one.
-/
theorem Fresh.attributesNamed_cases {added : Address → List (String × String)}
    (fresh : p.Fresh added) (has : p.Has place) (element : place.node.isElement = true)
    (name : String)
    : (place.redraw (.adding added)).node.attributesNamed name = place.node.attributesNamed name
      ∨ place.node.attributesNamed name = []
        ∧ ((place.redraw (.adding added)).node.attributesNamed name).length = 1 := by
  obtain ⟨once, absent⟩ := fresh place has element
  rw [Place.attributesNamed_redraw_adding added element]
  by_cases member : name ∈ (added place.address).map (·.1)
  · obtain ⟨proper, missing⟩ := absent name member
    have bare := Node.attributesNamed_eq_nil proper missing
    refine Or.inr ⟨bare, ?_⟩
    have one : ((added place.address).map (·.1)).count name = 1 :=
      List.count_eq_one_of_mem once member
    rw [bare, List.nil_append, Node.insertedAttributes, List.length_map,
      ← List.countP_eq_length_filter]
    rwa [List.count, List.countP_map] at one
  · left
    have nothing : (added place.address).filter (·.1 == name) = [] := by
      rw [List.filter_eq_nil_iff]
      intro addition among same
      exact member (List.mem_map.mpr ⟨addition, among, by simpa using same⟩)
    rw [nothing]
    exact List.append_nil _

theorem Has.redraw (has : p.Has place) (r : Redraw) : (p.redraw r).Has (place.redraw r) :=
  get?_redraw_of_has has r

-----------------------------------------------------------------------------------------
-- Several runs
-----------------------------------------------------------------------------------------

theorem afterRuns_concat (p : Program) (runs : List (Settings × Option String))
    (run : Settings × Option String)
    : p.afterRuns (runs ++ [run]) = (p.afterRuns runs).afterRun run.1 run.2 := by
  simp only [afterRuns, List.foldl_append, List.foldl_cons, List.foldl_nil]

/-- An element of a program after a run: it has as many attributes of a name as before, or it had
none and has one.
-/
theorem afterRun_attributesNamed (has : p.Has place) (element : place.node.isElement = true)
    (name : String) (settings : Settings) (path : Option String)
    : ∃ after,
        (p.afterRun settings path).Has ⟨place.address, after⟩
        ∧ after.isElement = true
        ∧ (after.attributesNamed name = place.node.attributesNamed name
          ∨ place.node.attributesNamed name = [] ∧ (after.attributesNamed name).length = 1) := by
  obtain ⟨added, same, fresh⟩ := p.afterRun_eq settings path
  refine ⟨(place.redraw (.adding added)).node, ?_, ?_, fresh.attributesNamed_cases has element name⟩
  · rw [same]
    exact has.redraw _
  · rw [Place.redraw, Node.isElement_redraw, element]

/-- What an element has of a name after a history of runs, by induction on the history: what it had,
or one attribute if it had none.
-/
theorem afterRuns_attributesNamed (has : p.Has place) (element : place.node.isElement = true)
    (name : String) (runs : List (Settings × Option String))
    : ∃ after,
        (p.afterRuns runs).Has ⟨place.address, after⟩
        ∧ after.isElement = true
        ∧ (after.attributesNamed name = place.node.attributesNamed name
          ∨ place.node.attributesNamed name = [] ∧ (after.attributesNamed name).length = 1) := by
  induction runs using List.reverseRecOn with
  | nil => exact ⟨place.node, has, element, Or.inl rfl⟩
  | append_singleton runs run ih =>
      obtain ⟨before, there, isElement, history⟩ := ih
      obtain ⟨after, next, isElement', last⟩ :=
        afterRun_attributesNamed there isElement name run.1 run.2
      refine ⟨after, ?_, isElement', ?_⟩
      · rwa [afterRuns_concat]
      · rcases last with same | ⟨bare, one⟩
        · rwa [same]
        · rcases history with same | ⟨_, one'⟩
          · exact Or.inr ⟨same ▸ bare, one⟩
          · rw [bare] at one'
            cases one'

/-- No name is written twice over whole histories of runs, skipped and faulty runs among them: each
run keeps the attributes of a name that an element carries as they are, or adds the first one.
-/
theorem attributesNamed_history (has : p.Has place) (element : place.node.isElement = true)
    (name : String) (runs : List (Settings × Option String)) (run : Settings × Option String)
    : ∃ before after,
        (p.afterRuns runs).Has ⟨place.address, before⟩
        ∧ (p.afterRuns (runs ++ [run])).Has ⟨place.address, after⟩
        ∧ (after.attributesNamed name = before.attributesNamed name
          ∨ before.attributesNamed name = [] ∧ (after.attributesNamed name).length = 1)
        ∧ ((place.node.attributesNamed name).length ≤ 1
          → (before.attributesNamed name).length ≤ 1)
        ∧ (place.node.attributesNamed name ≠ []
          → before.attributesNamed name = place.node.attributesNamed name)
        ∧ ∀ c,
            fullInjection c before.withoutSpreads = fullInjection c before
            ∧ legacyInjection c before.withoutSpreads = legacyInjection c before := by
  obtain ⟨before, there, isElement, history⟩ := afterRuns_attributesNamed has element name runs
  obtain ⟨after, next, _, last⟩ := afterRun_attributesNamed there isElement name run.1 run.2
  refine ⟨before, after, there, ?_, last, ?_, ?_, fun c => before.injection_withoutSpreads c⟩
  · rwa [afterRuns_concat]
  · intro atMostOne
    rcases history with same | ⟨_, one⟩
    · rwa [same]
    · exact Nat.le_of_eq one
  · intro carried
    exact history.resolve_right fun fresh => carried fresh.1

/-- The root of the badge: its author has put a spread and a component attribute on it. -/
def badgeRoot : Node :=
  .element {} (.leaf {} (.jsxIdentifier "i")) [
    .group {} (.opaqueNode "jsx_expression") [.leaf {} (.identifier "props")],
    .leaf {} (.jsxAttribute "data-sentry-component" (some "Mine") false)
  ] [] true (some 78)

/-- A file with one component. -/
def badge : Program where
  filename := "Badge.tsx"
  body := [
    .wrap {} (.functionDeclaration (some "Badge")) <| .group {} .blockStatement [
      .wrap {} .returnStatement badgeRoot
    ]
  ]

/-- The author's attribute stays the only one of its name, after a run under either family of names, a
run under the other policy, and one that is skipped.
-/
theorem attributesNamed_history_badge
    : ∃ after,
        (badge.afterRuns [
            ({}, none),
            ({ alternateNames := true }, none),
            ({ policy := .legacy }, none),
            ({}, some "/node_modules/@react-navigation/Badge.tsx")
          ]).Has ⟨[.part 0, .part 0, .part 0, .part 0], after⟩
        ∧ after.attributesNamed "data-sentry-component"
          = [.leaf {} (.jsxAttribute "data-sentry-component" (some "Mine") false)] := by
  have has : badge.Has ⟨[.part 0, .part 0, .part 0, .part 0], badgeRoot⟩ := rfl
  have written : badgeRoot.attributesNamed "data-sentry-component"
      = [.leaf {} (.jsxAttribute "data-sentry-component" (some "Mine") false)] :=
    rfl
  obtain ⟨before, after, _, next, last, _, kept, _⟩ :=
    attributesNamed_history has rfl "data-sentry-component"
      [({}, none), ({ alternateNames := true }, none), ({ policy := .legacy }, none)]
      ({}, some "/node_modules/@react-navigation/Badge.tsx")
  have same := kept (written ▸ List.cons_ne_nil _ _)
  rw [same, written] at last
  exact ⟨after, next, last.resolve_right fun fresh => List.cons_ne_nil _ _ fresh.1⟩

end Program
end JsxProvenance.Ast
