import JsxProvenance.Proofs.Annotation.Ignoring
import JsxProvenance.Proofs.Annotation.Recipients

/-! What a longer ignore list does to a run. It takes additions away and makes none, a listed element
gains nothing, and an entry that no element and no component is called by has no effect at all.
-/

namespace JsxProvenance

open Ast

variable {few many : IgnoreLists} {c : Context}

-----------------------------------------------------------------------------------------
-- One node
-----------------------------------------------------------------------------------------

theorem injection_of_not_open {n : Node} (closed : ¬ Open c n) : (c.injection n).additions = [] := by
  unfold Context.injection
  split
  · exact fullInjection_of_not_open closed
  · exact legacyInjection_of_not_openHost fun host => closed host.1

/-- A listed element gains nothing under either policy. -/
theorem injection_of_listed {n : Node} (listed : n.elementName ∈ c.settings.ignoredComponents)
    : (c.injection n).additions = [] :=
  injection_of_not_open fun h => (isIgnored_eq_false_iff.mp h.2).1 listed

/-- Two pairs of lists say the same of a name. -/
structure IgnoreLists.AgreeOn (few many : IgnoreLists) (name : String) : Prop where
  components : name ∈ many.components ↔ name ∈ few.components
  elements : name ∈ many.elements ↔ name ∈ few.elements

theorem isIgnored_congr {name component : String} {entries entries' : List String}
    (own : name ∈ entries ↔ name ∈ entries')
    (other : component ≠ "" → (component ∈ entries ↔ component ∈ entries'))
    : isIgnored name component entries = isIgnored name component entries' := by
  rw [Bool.eq_iff_iff, ← not_iff_not, Bool.not_eq_true, Bool.not_eq_true, isIgnored_eq_false_iff,
    isIgnored_eq_false_iff, own]
  exact and_congr_right fun _ => imp_congr_right fun proper => not_congr (other proper)

/-- Lists that agree on an element and its component give the element the same. -/
theorem injection_congr {n : Node} (own : few.AgreeOn many n.elementName)
    (other : c.component ≠ "" → few.AgreeOn many c.component)
    : (c.ignoring many).injection n = (c.ignoring few).injection n := by
  have ignored : isIgnored n.elementName c.component many.components
      = isIgnored n.elementName c.component few.components :=
    isIgnored_congr own.components fun proper => (other proper).components
  unfold Context.injection
  cases policy : c.settings.policy with
  | full =>
      simp only [fullInjection, Context.ignoring, Settings.ignoring, Settings.attributeNames, policy,
        ignored, own.elements]
  | legacy =>
      simp only [legacyInjection, Context.ignoring, Settings.ignoring, Settings.attributeNames,
        policy, ignored]

namespace Ast

theorem Node.isSyntax_of_isElement {n : Node} (element : n.isElement = true)
    : n.isSyntax = true := by
  cases n with
  | element => rfl
  | _ => cases element

theorem Program.Has.mem_walk {p : Program} {place : Place} (has : p.Has place)
    (syntactic : place.node.isSyntax = true)
    : place ∈ p.walk :=
  Place.mem_walk_of_get? (p := p.toPlace) has syntactic

namespace Program

variable {p : Program}

-----------------------------------------------------------------------------------------
-- Listed elements
-----------------------------------------------------------------------------------------

/-- A visit adds nothing to a listed element, in whichever state it is met. -/
theorem addedAt_of_listed {root place : Place} (has : p.Has root) (there : p.Has place)
    (listed : place.node.elementName ∈ many.components) (r : Redraw)
    : (p.redraw r).addedAt (c.ignoring many) root.address place.address = [] := by
  rw [addedAt_of_get? (get?_redraw_of_has has _)]
  by_contra gained
  obtain ⟨way, placed⟩ := exists_append_of_addedUnder gained
  rw [placed, addedUnder_append] at gained
  have heard : ¬ (c.ignoring many).Ignored :=
    fun ignored => gained (Context.added_pass_of_ignored ignored _ way)
  rcases c.added_pass_ignoring root way with nothing | ⟨t, n, reached, _, same⟩
  · exact gained (nothing _ _)
  · obtain rfl : place.node = n := congrArg Place.node (there.unique (reached.has has) placed)
    refine gained ((same _ _ heard).trans (injection_of_listed ?_))
    rwa [Node.elementName_redraw]

/-- Visits add nothing to a listed element, by induction from the last visit. -/
theorem addedBy_of_listed {visited : List (Component × Place)}
    (has : ∀ visit ∈ visited, p.Has visit.2) {place : Place} (there : p.Has place)
    (listed : place.node.elementName ∈ many.components)
    : p.addedBy (c.ignoring many) visited place.address = [] := by
  induction visited using List.reverseRecOn with
  | nil => rfl
  | append_singleton before visit ih =>
      obtain ⟨hasBefore, hasVisit⟩ := forall_mem_concat.mp has
      rw [addedBy_concat, ih hasBefore, List.nil_append]
      exact addedAt_of_listed (c := c.withComponent visit.1.name) hasVisit there listed _

-----------------------------------------------------------------------------------------
-- Entries without effect
-----------------------------------------------------------------------------------------

/-- Some element of the program, or some component found in it, has this name. -/
def Mentions (p : Program) (path : Option String) (packages : List String) (name : String) : Prop :=
  (∃ place ∈ p.walk, place.node.isElement = true ∧ place.node.elementName = name)
  ∨ ∃ component ∈ discover p path packages, component.name = name

/-- The lists agree on the names of all elements of a program. -/
def AgreeOnElements (few many : IgnoreLists) (p : Program) : Prop :=
  ∀ place ∈ p.walk, place.node.isElement = true → few.AgreeOn many place.node.elementName

/-- What a pass adds at an address is the same under lists that agree on the elements of the program
and on the name of the component.
-/
theorem addedAt_congr_ignoring (agree : p.AgreeOnElements few many)
    (other : c.component ≠ "" → few.AgreeOn many c.component) {root : Place} (has : p.Has root)
    (r : Redraw)
    : (p.redraw r).addedAt (c.ignoring many) root.address
      = (p.redraw r).addedAt (c.ignoring few) root.address := by
  rw [addedAt_of_get? (get?_redraw_of_has has _), addedAt_of_get? (get?_redraw_of_has has _)]
  refine congrArg (addedUnder · root.address) (funext fun way => ?_)
  have heard : (c.ignoring many).Ignored ↔ (c.ignoring few).Ignored :=
    and_congr_right fun proper => (other proper).components
  by_cases ignored : (c.ignoring many).Ignored
  · rw [Context.added_pass_of_ignored ignored, Context.added_pass_of_ignored (heard.mp ignored)]
  · rcases c.added_pass_ignoring root way with nothing | ⟨t, n, reached, state, same⟩
    · rw [nothing, nothing]
    · rw [same _ _ ignored, same _ _ (mt heard.mpr ignored)]
      by_cases element : n.isElement = true
      · have there : p.Has ⟨root.address ++ way, n⟩ := reached.has has
        have own := agree _ (there.mem_walk (Node.isSyntax_of_isElement element)) element
        refine congrArg Injection.additions (injection_congr (c := c.withComponent t) ?_ ?_)
        · rwa [Node.elementName_redraw]
        · rcases state with rfl | rfl
          · exact other
          · exact fun proper => absurd rfl proper
      · have closed (c : Context) (r : Redraw) : ¬ Open c (n.redraw r) := by
          rw [open_redraw]
          exact fun h => element (isElement_of_classify h.1)
        rw [injection_of_not_open (closed _ _), injection_of_not_open (closed _ _)]

/-- The second program is the first one with more attributes. -/
def Drawn (p q : Program) : Prop :=
  ∃ added, q = p.redraw (.adding added)

theorem Drawn.annotateAt {q : Program} (drawn : p.Drawn q) (c : Context) (a : Address)
    : p.Drawn (q.annotateAt c a).1 := by
  obtain ⟨added, rfl⟩ := drawn
  rw [annotateAt_eq, redraw_redraw_adding]
  exact ⟨_, rfl⟩

theorem Drawn.annotateAll {q : Program} (drawn : p.Drawn q) (c : Context) (addresses : List Address)
    : p.Drawn (q.annotateAll c addresses).1 := by
  induction addresses generalizing q with
  | nil => exact drawn
  | cons a rest ih => exact ih (drawn.annotateAt c a)

/-- Annotation from a root is the same under such lists: it draws the same tree, and it counts the
growth of the tree.
-/
theorem annotateAt_congr_ignoring (agree : p.AgreeOnElements few many)
    (other : c.component ≠ "" → few.AgreeOn many c.component) {root : Place} (has : p.Has root)
    {q : Program} (drawn : p.Drawn q)
    : q.annotateAt (c.ignoring many) root.address = q.annotateAt (c.ignoring few) root.address := by
  obtain ⟨added, rfl⟩ := drawn
  have tree : ((p.redraw (.adding added)).annotateAt (c.ignoring many) root.address).1
      = ((p.redraw (.adding added)).annotateAt (c.ignoring few) root.address).1 := by
    rw [annotateAt_eq, annotateAt_eq, addedAt_congr_ignoring agree other has]
  have grown := attributeTotal_annotateAt (c.ignoring many) (p.redraw (.adding added)) root.address
  have grown' := attributeTotal_annotateAt (c.ignoring few) (p.redraw (.adding added)) root.address
  rw [tree] at grown
  exact Prod.ext tree (by omega)

/-- Annotation from several roots is the same under such lists, by induction over the roots. -/
theorem annotateAll_congr_ignoring (agree : p.AgreeOnElements few many)
    (other : c.component ≠ "" → few.AgreeOn many c.component) {roots : List Place}
    (has : ∀ root ∈ roots, p.Has root) {q : Program} (drawn : p.Drawn q)
    : q.annotateAll (c.ignoring many) (roots.map (·.address))
      = q.annotateAll (c.ignoring few) (roots.map (·.address)) := by
  induction roots generalizing q with
  | nil => rfl
  | cons root rest ih =>
      obtain ⟨hasFirst, hasOthers⟩ := List.forall_mem_cons.mp has
      have first := annotateAt_congr_ignoring agree other hasFirst drawn
      have others := ih hasOthers (drawn.annotateAt (c.ignoring few) root.address)
      rw [List.map_cons, annotateAll, annotateAll, first, others]

/-- Annotation of components is the same under lists that agree on their names too, by induction over
the components.
-/
theorem annotateComponents_congr_ignoring (agree : p.AgreeOnElements few many)
    {cs : List Component} (named : ∀ component ∈ cs, few.AgreeOn many component.name)
    (has : ∀ component ∈ cs, ∀ root ∈ component.roots, p.Has root) {q : Program}
    (drawn : p.Drawn q)
    : q.annotateComponents (c.ignoring many) cs = q.annotateComponents (c.ignoring few) cs := by
  induction cs generalizing q with
  | nil => rfl
  | cons component rest ih =>
      obtain ⟨hasFirst, hasOthers⟩ := List.forall_mem_cons.mp has
      obtain ⟨namedFirst, namedOthers⟩ := List.forall_mem_cons.mp named
      have first
          : q.annotateAll ((c.ignoring many).withComponent component.name)
              (component.roots.map (·.address))
            = q.annotateAll ((c.ignoring few).withComponent component.name)
                (component.roots.map (·.address)) :=
        annotateAll_congr_ignoring (c := c.withComponent component.name) agree
          (fun _ => namedFirst) hasFirst drawn
      have others := ih namedOthers hasOthers
        (drawn.annotateAll ((c.ignoring few).withComponent component.name)
          (component.roots.map (·.address)))
      rw [annotateComponents, annotateComponents, first, others]

/-- Entries that are the name of no element and no component have no effect. -/
theorem annotate_congr_ignoring (settings : Settings) (path : Option String)
    (agree : ∀ name,
      p.Mentions path settings.incompatiblePackages name → few.AgreeOn many name)
    : p.annotate (settings.ignoring many) path = p.annotate (settings.ignoring few) path := by
  by_cases guarded : p.Guarded settings path
  · have skipped (lists : IgnoreLists)
        : p.annotate (settings.ignoring lists) path = .ok (p, { skipped := true }) :=
      annotate_of_guarded guarded
    rw [skipped, skipped]
  · have found := discover_of_open guarded
    have still (lists : IgnoreLists) : ¬ p.Guarded (settings.ignoring lists) path := guarded
    cases read : Aliases.collect p with
    | error fault =>
        rw [annotate_of_fault (still many) read, annotate_of_fault (still few) read]
    | ok aliases =>
        have run (lists : IgnoreLists)
            : p.annotate (settings.ignoring lists) path
              = .ok ((p.annotateComponents (Context.ignoring { settings, aliases } lists)
                    (components p)).1,
                { details := (p.annotateComponents (Context.ignoring { settings, aliases } lists)
                    (components p)).2 }) :=
          annotate_of_collect (still lists) read
        have same
            : p.annotateComponents (Context.ignoring { settings, aliases } many) (components p)
              = p.annotateComponents (Context.ignoring { settings, aliases } few) (components p) := by
          apply annotateComponents_congr_ignoring (p := p)
          · intro place visited element
            exact agree _ (Or.inl ⟨place, visited, element, rfl⟩)
          · intro component member
            exact agree _ (Or.inr ⟨component, found ▸ member, rfl⟩)
          · intro component member root rooted
            exact visits_has (List.Sublist.refl _) _ (mem_visits.mpr ⟨member, rooted⟩)
          · exact ⟨fun _ => [], p.redraw_adding_nothing.symm⟩
        rw [run, run, same]

-----------------------------------------------------------------------------------------
-- Two runs
-----------------------------------------------------------------------------------------

/-- The element at an address has more attributes of a name in the second program than in the first. -/
def Gains (p q : Program) (a : Address) (name : String) : Prop :=
  ∃ before after,
    p.get? a = some before
    ∧ q.get? a = some after
    ∧ before.isElement = true
    ∧ (before.attributesNamed name).length < (after.attributesNamed name).length

theorem annotateComponents_eq_redraw (c : Context) (p : Program) (cs : List Component)
    : (p.annotateComponents c cs).1 = p.redraw (.adding (p.addedBy c (visits cs))) := by
  rw [← annotateVisits_eq, annotateComponents_eq_visits]

/-- With more attributes the elements gain the names that they are given. -/
theorem gains_redraw_iff {added : Address → List (String × String)} {a : Address} {name : String}
    : p.Gains (p.redraw (.adding added)) a name
      ↔ ∃ n, p.get? a = some n ∧ n.isElement = true ∧ name ∈ namesOf (added a) := by
  have grown {n : Node} (element : n.isElement = true)
      : (n.attributesNamed name).length
          < (((Place.mk a n).redraw (.adding added)).node.attributesNamed name).length
        ↔ name ∈ namesOf (added a) := by
    rw [Place.attributesNamed_redraw_adding added element]
    simp [Node.insertedAttributes, namesOf, List.length_pos_iff, List.filter_eq_nil_iff]
  constructor
  · rintro ⟨before, after, found, drawn, element, more⟩
    have there : p.Has ⟨a, before⟩ := found
    obtain rfl := Option.some.inj (drawn.symm.trans (get?_redraw_of_has there (.adding added)))
    exact ⟨before, found, element, (grown element).mp more⟩
  · rintro ⟨n, found, element, member⟩
    have there : p.Has ⟨a, n⟩ := found
    exact ⟨n, _, found, get?_redraw_of_has there _, element, (grown element).mpr member⟩

/-- A run under the longer lists and the run under the shorter ones: both return, what the first adds the
second adds too, and the first adds nothing to a listed element.
-/
theorem annotate_ignoring_drawn (within : few.Within many) {settings : Settings}
    {path : Option String} {q : Program} {report : Report}
    (returned : p.annotate (settings.ignoring many) path = .ok (q, report))
    : ∃ added added' report',
        q = p.redraw (.adding added)
        ∧ p.annotate (settings.ignoring few) path = .ok (p.redraw (.adding added'), report')
        ∧ (∀ a, namesOf (added a) ⊆ namesOf (added' a))
        ∧ ∀ place,
            p.Has place → place.node.elementName ∈ many.components → added place.address = [] := by
  rcases annotate_cases returned with ⟨guarded, rfl, rfl⟩ | ⟨open', aliases, read, rfl, rfl⟩
  · refine ⟨fun _ => [], fun _ => [], { skipped := true }, q.redraw_adding_nothing.symm, ?_, ?_, ?_⟩
    · rw [q.redraw_adding_nothing]
      exact annotate_of_guarded guarded
    · exact fun _ => List.Subset.refl _
    · exact fun _ _ _ => rfl
  · have still : ¬ p.Guarded (settings.ignoring few) path := open'
    have run := annotate_of_collect still read
    have has := visits_has (List.Sublist.refl (components p))
    rw [annotateComponents_eq_redraw] at run
    refine ⟨_, _, _, annotateComponents_eq_redraw _ p (components p), run, ?_, ?_⟩
    · exact mem_addedBy_ignoring (c := { settings, aliases }) within has
    · intro place there listed
      exact addedBy_of_listed (c := { settings, aliases }) has there listed

/-- Longer ignore lists take away and add nothing: what an element gains under them it gains under
shorter ones. An element on the list of components gains nothing. Entries that are the name of no
element and of no component have no effect.
-/
theorem annotate_ignoring_more (within : few.Within many) (p : Program) (settings : Settings)
    (path : Option String)
    : (∀ q report,
        p.annotate (settings.ignoring many) path = .ok (q, report)
        → (∃ q' report',
            p.annotate (settings.ignoring few) path = .ok (q', report')
            ∧ ∀ a name, p.Gains q a name → p.Gains q' a name)
          ∧ ∀ a n name,
              p.get? a = some n
              → n.elementName ∈ many.components
              → ¬ p.Gains q a name)
      ∧ ((∀ entry,
          entry ∈ many.components ∧ entry ∉ few.components
            ∨ entry ∈ many.elements ∧ entry ∉ few.elements
          → ¬ p.Mentions path settings.incompatiblePackages entry)
        → p.annotate (settings.ignoring many) path = p.annotate (settings.ignoring few) path) := by
  constructor
  · intro q report returned
    obtain ⟨added, added', report', rfl, run, fewer, silent⟩ :=
      annotate_ignoring_drawn within returned
    refine ⟨⟨_, report', run, ?_⟩, ?_⟩
    · intro a name gained
      obtain ⟨n, found, element, member⟩ := gains_redraw_iff.mp gained
      exact gains_redraw_iff.mpr ⟨n, found, element, fewer a member⟩
    · intro a n name found listed gained
      obtain ⟨_, _, _, member⟩ := gains_redraw_iff.mp gained
      rw [silent ⟨a, n⟩ found listed] at member
      cases member
  · intro unheard
    refine annotate_congr_ignoring settings path fun name mentioned => ⟨?_, ?_⟩
    · refine ⟨fun listed => ?_, fun listed => within.components listed⟩
      by_contra extra
      exact unheard name (Or.inl ⟨listed, extra⟩) mentioned
    · refine ⟨fun listed => ?_, fun listed => within.elements listed⟩
      by_contra extra
      exact unheard name (Or.inr ⟨listed, extra⟩) mentioned

/-- The root that the class and the function of the board have both. -/
def sharedRoot : Address :=
  List.replicate 7 (.part 0)

/-- The other root of the class. -/
def listedRoot : Address :=
  [.part 0, .part 0, .part 0, .part 1, .part 0, .part 0]

/-- With the class of the board on the list the nested function marks the root that both have, and the
element on the list is not marked.
-/
theorem annotate_ignoring_more_board
    : ∃ q q' report report',
        board.annotate (boardSettings.ignoring ⟨["ul", "Board"], []⟩) none = .ok (q, report)
        ∧ board.annotate (boardSettings.ignoring ⟨[], []⟩) none = .ok (q', report')
        ∧ board.Gains q sharedRoot "data-sentry-component"
        ∧ board.Gains q' sharedRoot "data-sentry-component"
        ∧ ¬ board.Gains q listedRoot "data-sentry-component"
        ∧ board.annotate (boardSettings.ignoring ⟨["Column"], ["td"]⟩) none
          = board.annotate (boardSettings.ignoring ⟨[], []⟩) none := by
  have within (lists : IgnoreLists) : IgnoreLists.Within ⟨[], []⟩ lists :=
    ⟨List.nil_subset _, List.nil_subset _⟩
  have open' : ¬ board.Guarded (boardSettings.ignoring ⟨["ul", "Board"], []⟩) none := by
    rw [Guarded]
    decide
  have read : Aliases.collect board = .ok {} := rfl
  have returned := annotate_of_collect open' read
  have marked
      : ((board.annotateComponents
            { settings := boardSettings.ignoring ⟨["ul", "Board"], []⟩ } (components board)).1.get?
          sharedRoot).map (fun n => (n.attributesNamed "data-sentry-component").length)
        = some 1 := by
    decide +kernel
  obtain ⟨after, drawn, count⟩ := Option.map_eq_some_iff.mp marked
  have gained : board.Gains _ sharedRoot "data-sentry-component" :=
    ⟨_, after, rfl, drawn, rfl, count ▸ Nat.zero_lt_one⟩
  obtain ⟨⟨q', report', returned', kept⟩, silent⟩ :=
    (annotate_ignoring_more (within _) board boardSettings none).1 _ _ returned
  refine ⟨_, q', _, report', returned, returned', gained, kept _ _ gained, ?_, ?_⟩
  · exact silent listedRoot _ _ rfl (by decide)
  · refine (annotate_ignoring_more (within _) board boardSettings none).2 ?_
    have elements
        : (board.walk.filter (·.node.isElement)).map (·.node.elementName) = ["li", "b", "ul"] := by
      decide +kernel
    have found : (discover board none boardSettings.incompatiblePackages).map (·.name)
        = ["Board", "Row"] := by
      decide +kernel
    have apart
        : ∀ entry, entry = "Column" ∨ entry = "td" → entry ∉ ["li", "b", "ul", "Board", "Row"] := by
      rintro entry (rfl | rfl) <;> decide
    intro entry extra mentioned
    refine apart entry (by simpa using extra) ?_
    rcases mentioned with ⟨place, visited, element, rfl⟩ | ⟨component, member, rfl⟩
    · have named : place.node.elementName ∈ ["li", "b", "ul"] :=
        elements ▸ List.mem_map_of_mem (List.mem_filter.mpr ⟨visited, element⟩)
      exact List.mem_append_left ["Board", "Row"] named
    · have named : component.name ∈ ["Board", "Row"] := found ▸ List.mem_map_of_mem member
      exact List.mem_append_right ["li", "b", "ul"] named

end Program
end Ast
end JsxProvenance
