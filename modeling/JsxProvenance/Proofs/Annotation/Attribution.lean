import Mathlib.Data.List.Find
import JsxProvenance.Proofs.Annotation.Histories
import JsxProvenance.Proofs.Annotation.Recipients

/-! Which component an element is attributed to. The first visit that hands a name to an element
writes it, and all later ones find it present. A node is reached from one root at most, so these
visits are to one root, and the name is that of the first component with that root.
-/

namespace JsxProvenance

open Ast

-----------------------------------------------------------------------------------------
-- The first visit writes
-----------------------------------------------------------------------------------------

/-- An element without attributes of a name has those that it was given. -/
theorem Ast.Place.attributesNamed_of_bare {place : Place} (element : place.node.isElement = true)
    {name : String} (proper : name ≠ "") (bare : place.node.hasAttribute name = false)
    (added : Address → List (String × String))
    : (place.redraw (.adding added)).node.attributesNamed name
      = Node.insertedAttributes place.node.position
          ((added place.address).filter (·.1 == name)) := by
  rw [Place.attributesNamed_redraw_adding added element, Node.attributesNamed_eq_nil proper bare,
    List.nil_append]

theorem Ast.Place.hasAttribute_of_bare {place : Place} (element : place.node.isElement = true)
    {name : String} (proper : name ≠ "") (bare : place.node.hasAttribute name = false)
    (added : Address → List (String × String))
    : (place.redraw (.adding added)).node.hasAttribute name = true
      ↔ (added place.address).filter (·.1 == name) ≠ [] := by
  rw [Node.hasAttribute_iff_attributesNamed proper, attributesNamed_of_bare element proper bare,
    Node.insertedAttributes, ne_eq, List.map_eq_nil_iff]

theorem Ast.Node.attributeValue?_eq (n : Node) (name : String)
    : n.attributeValue? name
      = (n.attributesNamed name).head?.bind fun
          | .leaf _ (.jsxAttribute _ value _) => value
          | _ => none := by
  rw [attributesNamed, List.head?_filter]
  rfl

theorem Ast.Node.missingAttribute_of_present {n : Node} {name : String}
    (present : n.hasAttribute name = true) (value : String)
    : n.missingAttribute name value = [] := by
  simp [missingAttribute, present]

theorem Ast.Node.missingAttribute_of_absent {n : Node} {name value : String}
    (absent : n.hasAttribute name = false) (proper : value ≠ "")
    : n.missingAttribute name value = [(name, value)] := by
  simp [missingAttribute, absent, proper]

namespace Ast.Program

variable {c : Context} {p : Program} {visited : List (Component × Place)} {place : Place}

/-- The first visit that hands a name to an element writes it there, by induction from the last
visit.
-/
theorem filter_addedBy
    (written : ∀ visit ∈ visited, p.WritesHanded (c.withComponent visit.1.name) visit.2 place)
    (element : place.node.isElement = true)
    (bare : place.node.hasAttribute c.settings.attributeNames.component = false)
    : (p.addedBy c visited place.address).filter (·.1 == c.settings.attributeNames.component)
      = ((visited.find? fun visit =>
            (c.withComponent visit.1.name).Hands visit.2 place).toList.map fun visit =>
          (c.settings.attributeNames.component, visit.1.name)) := by
  induction visited using List.reverseRecOn with
  | nil => rfl
  | append_singleton before visit ih =>
      obtain ⟨writtenBefore, writtenNow⟩ := forall_mem_concat.mp written
      have earlier := ih writtenBefore
      have now
          : ((p.redraw (.adding (p.addedBy c before))).addedAt (c.withComponent visit.1.name)
                visit.2.address place.address).filter (·.1 == c.settings.attributeNames.component)
            = if (c.withComponent visit.1.name).Hands visit.2 place then
                (place.redraw (.adding (p.addedBy c before))).node.missingAttribute
                  c.settings.attributeNames.component visit.1.name
              else [] :=
        writtenNow _
      have present := Place.hasAttribute_of_bare element
        c.settings.attributeNames_distinct.2.2.2.2.1 bare (p.addedBy c before)
      rw [addedBy_concat, List.filter_append, List.find?_append, now, List.find?_singleton]
      rw [earlier] at present ⊢
      cases given : before.find? fun visit => (c.withComponent visit.1.name).Hands visit.2 place with
      | some first =>
          rw [given] at present
          rw [Node.missingAttribute_of_present (present.mpr (List.cons_ne_nil _ _)), ite_self,
            List.append_nil, Option.some_or]
      | none =>
          rw [given] at present
          have absent := Bool.eq_false_iff.mpr (mt present.mp (not_not_intro rfl))
          by_cases hands : (c.withComponent visit.1.name).Hands visit.2 place
          · have proper : visit.1.name ≠ "" := hands.1.1
            rw [if_pos hands, if_pos (decide_eq_true hands),
              Node.missingAttribute_of_absent absent proper]
            rfl
          · rw [if_neg hands, if_neg (by simpa using hands)]
            rfl

/-- An element carries the component attribute just if a visit hands it a name. -/
theorem hasAttribute_addedBy (has : ∀ visit ∈ visited, p.Has visit.2) (there : p.Has place)
    (element : place.node.isElement = true) (full : c.settings.policy = .full)
    (bare : place.node.hasAttribute c.settings.attributeNames.component = false)
    : (place.redraw (.adding (p.addedBy c visited))).node.hasAttribute
          c.settings.attributeNames.component = true
      ↔ ∃ visit ∈ visited, (c.withComponent visit.1.name).Hands visit.2 place := by
  rw [Place.hasAttribute_of_bare element c.settings.attributeNames_distinct.2.2.2.2.1 bare,
    filter_addedBy (fun visit among => writesHanded_of_full (has visit among) there full) element bare,
    ne_eq, List.map_eq_nil_iff, Option.toList_eq_nil_iff, List.find?_eq_none]
  simp

/-- The value of the component attribute is the name of the first visit that hands one. -/
theorem attributeValue?_addedBy (has : ∀ visit ∈ visited, p.Has visit.2) (there : p.Has place)
    (element : place.node.isElement = true) (full : c.settings.policy = .full)
    (bare : place.node.hasAttribute c.settings.attributeNames.component = false)
    : (place.redraw (.adding (p.addedBy c visited))).node.attributeValue?
          c.settings.attributeNames.component
      = (visited.find? fun visit => (c.withComponent visit.1.name).Hands visit.2 place).map
          (·.1.name) := by
  have named := Place.attributesNamed_of_bare element
    c.settings.attributeNames_distinct.2.2.2.2.1 bare (p.addedBy c visited)
  rw [filter_addedBy (fun visit among => writesHanded_of_full (has visit among) there full) element
    bare] at named
  rw [Node.attributeValue?_eq, named]
  cases visited.find? fun visit => (c.withComponent visit.1.name).Hands visit.2 place <;> rfl

/-- An element with an attribute is drawn from an element of the program. -/
theorem exists_of_hasAttribute {r : Redraw} {a : Address} {after : Node} {name : String}
    (found : (p.redraw r).get? a = some after) (carries : after.hasAttribute name = true)
    : ∃ n, p.get? a = some n ∧ n.isElement = true ∧ after = n.redraw (r.under a) := by
  have element : after.isElement = true := by
    cases after with
    | element => rfl
    | _ => simp [Node.hasAttribute, Node.attributes] at carries
  rcases get?_redraw_cases r p a with drawn | ⟨_, n, other, plain⟩
  · rw [found] at drawn
    obtain ⟨n, before, rfl⟩ := Option.map_eq_some_iff.mp drawn.symm
    rw [Node.isElement_redraw] at element
    exact ⟨n, before, element, rfl⟩
  · rw [found] at other
    obtain rfl := Option.some.inj other
    cases after with
    | element => cases plain
    | _ => cases element

end Ast.Program

-----------------------------------------------------------------------------------------
-- The first component of a root
-----------------------------------------------------------------------------------------

/-- The first visit of some kind is one for the first component with such a root, by induction over
the components.
-/
theorem find?_visits (kind : Component × Place → Bool) (cs : List Component)
    : ((visits cs).find? kind).map (·.1)
      = cs.find? fun component => component.roots.any fun root => kind (component, root) := by
  induction cs with
  | nil => rfl
  | cons first rest ih =>
      have split : visits (first :: rest)
          = first.roots.map (fun root => (first, root)) ++ visits rest := rfl
      rw [split, List.find?_append, List.find?_map, List.find?_cons]
      cases found : first.roots.find? (kind ∘ fun root => (first, root)) with
      | none =>
          have unfit : first.roots.any (fun root => kind (first, root)) = false := by
            simpa using found
          rw [unfit]
          exact ih
      | some root =>
          have fits : kind (first, root) = true := by simpa using List.find?_some found
          have fitting : first.roots.any (fun root => kind (first, root)) = true :=
            List.any_eq_true.mpr ⟨root, List.mem_of_find?_eq_some found, fits⟩
          rw [fitting]
          rfl

/-- A component that can give its name to what a root hands it to. -/
def Component.NamesAt (settings : Settings) (root : Address) (component : Component) : Prop :=
  settings.Writes component.name ∧ root ∈ component.roots.map (·.address)

instance (settings : Settings) (root : Address)
    : DecidablePred (Component.NamesAt settings root) :=
  fun _ => inferInstanceAs (Decidable (_ ∧ _))

/-- To which component the elements of a program are attributed by a run. -/
structure Attributed (settings : Settings) (aliases : Aliases) (p q : Program) : Prop where
  /-- An element carries the component attribute just if a root hands it a name that is written. -/
  carried
    : ∀ a after,
        q.get? a = some after
        → (after.hasAttribute settings.attributeNames.component = true
          ↔ ∃ component ∈ components p, ∃ root ∈ component.roots, ∃ n,
              settings.Writes component.name
              ∧ recipient? settings aliases root = some ⟨a, n⟩
              ∧ n.elementName ∉ settings.ignoredComponents)
  /-- The name is that of the first component with the root whose name is written. -/
  value
    : ∀ a after root n,
        q.get? a = some after
        → after.hasAttribute settings.attributeNames.component = true
        → p.IsRoot root
        → recipient? settings aliases root = some ⟨a, n⟩
        → ∃ first,
            (components p).find? (fun c => c.NamesAt settings root.address) = some first
            ∧ after.attributeValue? settings.attributeNames.component = some first.name
  /-- A root gives the name to one node at most. -/
  once
    : ∀ root a b n m after after',
        p.IsRoot root
        → root.Reaches ⟨a, n⟩
        → root.Reaches ⟨b, m⟩
        → q.get? a = some after
        → q.get? b = some after'
        → after.hasAttribute settings.attributeNames.component = true
        → after'.hasAttribute settings.attributeNames.component = true
        → a = b
  /-- Two functions or arrows share no root. -/
  apart
    : (components p).Pairwise fun first second =>
        first.kind ≠ .classStyle
        → second.kind ≠ .classStyle
        → ∀ root ∈ first.roots, ∀ other ∈ second.roots, root.address ≠ other.address
  /-- What the roots of a function or an arrow outside all render methods hand on is its own name. -/
  own
    : ∀ definition ∈ p.walk, ∀ component,
        componentAt? definition = some component
        → component.kind ≠ .classStyle
        → (∀ other ∈ p.walk, ∀ method,
            renderOf? other = some method → ¬ method.address <+: definition.address)
        → ∀ root ∈ component.roots, ∀ a n after,
            recipient? settings aliases root = some ⟨a, n⟩
            → q.get? a = some after
            → after.hasAttribute settings.attributeNames.component = true
            → after.attributeValue? settings.attributeNames.component = some component.name

namespace Ast.Program

/-- The components that hand a name to what a root hands it to are those with that root. -/
theorem any_hands_eq {c : Context} {p : Program} {root place : Place} {component : Component}
    (isRoot : p.IsRoot root) (handed : recipient? c.settings c.aliases root = some place)
    (tag : place.node.elementName ∉ c.settings.ignoredComponents)
    (member : component ∈ components p)
    : (component.roots.any fun other =>
          (c.withComponent component.name).Hands other place)
      = decide (component.NamesAt c.settings root.address) := by
  have there := (reaches_of_recipient? handed).has isRoot.stands.has
  rw [Bool.eq_iff_iff, List.any_eq_true, decide_eq_true_iff]
  constructor
  · rintro ⟨other, rooted, hands⟩
    have isOther : p.IsRoot other := ⟨component, member, rooted⟩
    obtain ⟨writes, handed', _⟩ :=
      (Context.hands_iff isOther.stands.has there).mp (of_decide_eq_true hands)
    obtain rfl := isOther.unique isRoot (reaches_of_recipient? handed')
      (reaches_of_recipient? handed) rfl
    exact ⟨writes, List.mem_map_of_mem rooted⟩
  · rintro ⟨writes, placed⟩
    obtain ⟨other, rooted, same⟩ := List.mem_map.mp placed
    have isOther : p.IsRoot other := ⟨component, member, rooted⟩
    obtain rfl := isOther.stands.has.unique isRoot.stands.has same
    exact ⟨other, rooted, decide_eq_true
      ((Context.hands_iff isOther.stands.has there).mpr ⟨writes, handed, tag⟩)⟩

section

variable {settings : Settings} {aliases : Aliases} {p q : Program}
  (full : settings.policy = .full)
  (bare : ∀ a n, p.get? a = some n → n.hasAttribute settings.attributeNames.component = false)
  (drawn : q = p.redraw (.adding (p.addedBy { settings, aliases } (visits (components p)))))
include full bare drawn

theorem carried_iff {a : Address} {after : Node} (found : q.get? a = some after)
    : after.hasAttribute settings.attributeNames.component = true
      ↔ ∃ component ∈ components p, ∃ root ∈ component.roots, ∃ n,
          settings.Writes component.name
          ∧ recipient? settings aliases root = some ⟨a, n⟩
          ∧ n.elementName ∉ settings.ignoredComponents := by
  have has := visits_has (List.Sublist.refl (components p))
  subst drawn
  constructor
  · intro carries
    obtain ⟨n, before, element, rfl⟩ := exists_of_hasAttribute found carries
    have there : p.Has ⟨a, n⟩ := before
    obtain ⟨⟨component, root⟩, among, hands⟩ :=
      (hasAttribute_addedBy has there element full (bare a n before)).mp carries
    obtain ⟨writes, handed, tag⟩ := (Context.hands_iff (has _ among) there).mp hands
    obtain ⟨member, rooted⟩ := mem_visits.mp among
    exact ⟨component, member, root, rooted, n, writes, handed, tag⟩
  · rintro ⟨component, member, root, rooted, n, writes, handed, tag⟩
    have among := mem_visits.mpr ⟨member, rooted⟩
    have there : p.Has ⟨a, n⟩ := (reaches_of_recipient? handed).has (has _ among)
    have element := isElement_of_classify (classify_of_recipient? handed)
    obtain rfl := Option.some.inj (found.symm.trans (get?_redraw_of_has there _))
    refine (hasAttribute_addedBy has there element full (bare a n there)).mpr ⟨_, among, ?_⟩
    exact (Context.hands_iff (has _ among) there).mpr ⟨writes, handed, tag⟩

/-- A root whose recipient carries the attribute is the only one that handed it a name. -/
theorem eq_of_carried {a : Address} {n after : Node} {root : Place} (found : q.get? a = some after)
    (carries : after.hasAttribute settings.attributeNames.component = true) (isRoot : p.IsRoot root)
    (reached : root.Reaches ⟨a, n⟩)
    : ∃ m, recipient? settings aliases root = some ⟨a, m⟩ := by
  obtain ⟨component, member, other, rooted, m, _, handed, _⟩ :=
    (carried_iff full bare drawn found).mp carries
  have isOther : p.IsRoot other := ⟨component, member, rooted⟩
  obtain rfl := isOther.unique isRoot (reaches_of_recipient? handed) reached rfl
  exact ⟨m, handed⟩

/-- The value is the name of the first component with the root that hands it on, since no other root
hands a name to the same node.
-/
theorem value_of_carried {a : Address} {n after : Node} {root : Place}
    (found : q.get? a = some after)
    (carries : after.hasAttribute settings.attributeNames.component = true) (isRoot : p.IsRoot root)
    (handed : recipient? settings aliases root = some ⟨a, n⟩)
    : ∃ first,
        (components p).find? (fun c => c.NamesAt settings root.address) = some first
        ∧ after.attributeValue? settings.attributeNames.component = some first.name := by
  have has := visits_has (List.Sublist.refl (components p))
  have there : p.Has ⟨a, n⟩ := (reaches_of_recipient? handed).has isRoot.stands.has
  have element := isElement_of_classify (classify_of_recipient? handed)
  obtain ⟨component, member, other, rooted, m, writes, handed', tag⟩ :=
    (carried_iff full bare drawn found).mp carries
  have isOther : p.IsRoot other := ⟨component, member, rooted⟩
  obtain rfl := isOther.unique isRoot (reaches_of_recipient? handed') (reaches_of_recipient? handed)
    rfl
  obtain rfl : m = n := congrArg Place.node (Option.some.inj (handed'.symm.trans handed))
  have names : component.NamesAt settings other.address :=
    ⟨writes, List.mem_map_of_mem rooted⟩
  cases first : (components p).find? fun c => c.NamesAt settings other.address with
  | none =>
      exact absurd (decide_eq_true names) (List.find?_eq_none.mp first component member)
  | some first' =>
      refine ⟨first', rfl, ?_⟩
      subst drawn
      obtain rfl := Option.some.inj (found.symm.trans (get?_redraw_of_has there _))
      have visit := find?_visits
        (fun visit => decide ((Context.withComponent { settings, aliases } visit.1.name).Hands
          visit.2 ⟨a, m⟩)) (components p)
      rw [List.find?_congr fun _ => any_hands_eq isOther handed tag, first] at visit
      have value := attributeValue?_addedBy (c := { settings, aliases }) has there element full
        (bare a m there)
      refine value.trans ?_
      obtain ⟨given, handing, rfl⟩ := Option.map_eq_some_iff.mp visit
      rw [handing]
      rfl

/-- The roots of a function or an arrow outside all render methods belong to it alone. -/
theorem own_of_carried {definition root : Place} {component : Component}
    (visited : definition ∈ p.walk) (defined : componentAt? definition = some component)
    (style : component.kind ≠ .classStyle)
    (outside : ∀ other ∈ p.walk, ∀ method,
      renderOf? other = some method → ¬ method.address <+: definition.address)
    (rooted : root ∈ component.roots) {a : Address} {n after : Node}
    (handed : recipient? settings aliases root = some ⟨a, n⟩) (found : q.get? a = some after)
    (carries : after.hasAttribute settings.attributeNames.component = true)
    : after.attributeValue? settings.attributeNames.component = some component.name := by
  have member : component ∈ components p := by
    refine List.mem_filter.mpr ⟨List.mem_filterMap.mpr ⟨definition, visited, defined⟩, ?_⟩
    simpa using List.ne_nil_of_mem rooted
  obtain ⟨first, earliest, value⟩ :=
    value_of_carried full bare drawn found carries ⟨component, member, rooted⟩ handed
  obtain ⟨_, placed⟩ : first.NamesAt settings root.address := by
    simpa using List.find?_some earliest
  obtain ⟨root', rooted', same⟩ := List.mem_map.mp placed
  obtain ⟨other, visited', defined'⟩ :=
    defines_of_mem_components (List.mem_of_find?_eq_some earliest)
  have has := has_of_mem_walk visited
  have has' := has_of_mem_walk visited'
  have defines := defines_of_componentAt? defined
  have defines' := defines_of_componentAt? defined'
  by_cases style' : first.kind = .classStyle
  · obtain ⟨method, render, inside⟩ :=
      defines.inside_render has style defines' has' style' rooted rooted' same.symm
    exact absurd inside (outside other visited' method render)
  · have here := defines.definitionOf_eq has style rooted
    have there := defines'.definitionOf_eq has' style' rooted'
    obtain rfl := has.unique has' (here.symm.trans ((congrArg p.definitionOf same.symm).trans there))
    rw [defined] at defined'
    rw [value, Option.some.inj defined']

theorem attributed_of_drawn : Attributed settings aliases p q where
  carried _ _ found := carried_iff full bare drawn found
  value _ _ _ _ found carries isRoot handed :=
    value_of_carried full bare drawn found carries isRoot handed
  once root a b n m after after' isRoot reached reached' found found' carries carries' := by
    obtain ⟨_, handed⟩ := eq_of_carried full bare drawn found carries isRoot reached
    obtain ⟨_, handed'⟩ := eq_of_carried full bare drawn found' carries' isRoot reached'
    exact congrArg Place.address (Option.some.inj (handed.symm.trans handed'))
  apart := pairwise_roots p
  own _ visited _ defined style outside _ rooted _ _ _ handed found carries :=
    own_of_carried full bare drawn visited defined style outside rooted handed found carries

end

/-- A run under the full policy attributes the elements of a program without component attributes: the
recipient of each root to the first component with that root, and no other element.
-/
theorem annotate_attributed {settings : Settings} {path : Option String} {p q : Program}
    {report : Report} (h : p.annotate settings path = .ok (q, report))
    (open' : report.skipped = false) (full : settings.policy = .full)
    (bare : ∀ place ∈ p.walk,
      place.node.hasAttribute settings.attributeNames.component = false)
    : ∃ aliases, Aliases.collect p = .ok aliases ∧ Attributed settings aliases p q := by
  obtain ⟨aliases, visited, outcome⟩ := annotate_visits h
  rcases outcome with ⟨skipped, _⟩ | ⟨_, found, read⟩
  · rw [open'] at skipped
    cases skipped
  · refine ⟨aliases, read, attributed_of_drawn full ?_ ?_⟩
    · intro a n there
      by_cases syntactic : n.isSyntax = true
      · exact bare _ (Place.mem_walk_of_get? (p := p.toPlace) there syntactic)
      · cases n with
        | absent | plain => exact Bool.and_false _
        | _ => exact absurd rfl syntactic
    · rw [← annotateVisits_eq, ← found, visited]

/-- The names that the board shows: the class gives its own to the root that it shares, and to the
first child of the fragment.
-/
theorem annotate_attributed_board
    : ∃ report aliases,
        board.annotate boardSettings none = .ok (annotatedBoard, report)
        ∧ Attributed boardSettings aliases board annotatedBoard
        ∧ (annotatedBoard.walk.filter (·.node.isElement)).map
            (fun place =>
              (place.node.elementName, place.node.attributeValue? "data-sentry-component"))
          = [("li", some "Board"), ("b", none), ("ul", some "Board")] := by
  obtain ⟨report, returned, _, open'⟩ := annotate_board
  have bare : board.walk.all
      (fun place => !place.node.hasAttribute boardSettings.attributeNames.component) = true := by
    decide +kernel
  obtain ⟨aliases, _, attributed⟩ := annotate_attributed returned open' rfl fun place visited => by
    simpa using List.all_eq_true.mp bare place visited
  refine ⟨report, aliases, returned, attributed, ?_⟩
  decide +kernel

end Ast.Program
end JsxProvenance
