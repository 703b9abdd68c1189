import JsxProvenance.Proofs.Annotation.Growth
import JsxProvenance.Proofs.Annotation.Histories

/-! Runs under shorter and longer ignore lists. The way down from a root does not see the lists, so
both runs meet the same nodes. With longer lists fewer visits are made and fewer nodes are open, and
a node that was given fewer attributes gains no more names, so what a run adds under the longer lists
it adds under the shorter ones too.
-/

namespace JsxProvenance

open Ast

/-- The two lists of names that are left alone. -/
structure IgnoreLists where
  components : List String
  elements : List String
  deriving DecidableEq, Repr, Inhabited

/-- The longer lists have all entries of the shorter ones, in any order. -/
structure IgnoreLists.Within (few many : IgnoreLists) : Prop where
  components : few.components ⊆ many.components
  elements : few.elements ⊆ many.elements

/-- The settings with other ignore lists. -/
def Settings.ignoring (s : Settings) (lists : IgnoreLists) : Settings :=
  { s with ignoredComponents := lists.components, ignoredElements := lists.elements }

/-- The context with other ignore lists. -/
def Context.ignoring (c : Context) (lists : IgnoreLists) : Context :=
  { c with settings := c.settings.ignoring lists }

/-- The names of additions. -/
def namesOf (additions : List (String × String)) : List String :=
  additions.map (·.1)

-----------------------------------------------------------------------------------------
-- The way down
-----------------------------------------------------------------------------------------

namespace Descent

variable {σ : Type} {d e : Descent σ}

theorem reach_congr (child : d.child = e.child) (rest : d.rest = e.rest) (s : σ)
    (nodes : List Node) (i : Nat)
    : d.reach s nodes i = e.reach s nodes i := by
  induction nodes generalizing s i with
  | nil => rfl
  | cons n later ih =>
      cases i with
      | zero => rw [reach, reach, child]
      | succ i => rw [reach, reach, rest, ih]

/-- Descents with the same way down meet the same nodes in the same states, by induction on the
address.
-/
theorem meet_congr (enter : d.enter = e.enter) (child : d.child = e.child) (rest : d.rest = e.rest)
    (s : σ) (n : Node) (a : Address)
    : d.meet s n a = e.meet s n a := by
  have follows (s : σ) (n : Node) (step : Step) : d.follow s n step = e.follow s n step := by
    simp only [follow, enter, reach_congr child rest]
  induction a generalizing s n with
  | nil => rfl
  | cons step later ih =>
      rw [meet, meet, follows]
      cases e.follow s n step with
      | none => rfl
      | some met => exact ih met.1 met.2

end Descent

/-- Whether the legacy policy stops at a node is said without the ignore lists. -/
theorem target_legacyInjection (c : Context) (n : Node)
    : (legacyInjection c n).target
      = (classify (some c.aliases) n == .element && isHostElement n.elementName) := by
  by_cases element : classify (some c.aliases) n = .element
  · by_cases host : isHostElement n.elementName = true
    · cases ignored : isIgnored n.elementName c.component c.settings.ignoredComponents <;>
        simp [legacyInjection, element, host, ignored]
    · simp [legacyInjection, element, host]
  · simp [legacyInjection, element]

theorem meet_fullDescent_ignoring (c : Context) (lists : IgnoreLists) (name : String) (n : Node)
    (a : Address)
    : (fullDescent (c.ignoring lists)).meet name n a = (fullDescent c).meet name n a := by
  apply Descent.meet_congr <;> rfl

theorem meet_legacyDescent_ignoring (c : Context) (lists : IgnoreLists) (n : Node) (a : Address)
    : (legacyDescent (c.ignoring lists)).meet () n a = (legacyDescent c).meet () n a := by
  apply Descent.meet_congr
  · funext _ n
    simp only [legacyDescent, target_legacyInjection]
    rfl
  · rfl
  · rfl

-----------------------------------------------------------------------------------------
-- What one node gains
-----------------------------------------------------------------------------------------

/-- What a node gains under the policy of a context. -/
def Context.injection (c : Context) (n : Node) : Injection :=
  match c.settings.policy with
  | .full => fullInjection c n
  | .legacy => legacyInjection c n

section

variable {few many : IgnoreLists} {c : Context} {n : Node} {r r' : Redraw} {name : String}

theorem isIgnored_of_subset {entries entries' : List String} (subset : entries ⊆ entries')
    {label component : String} (ignored : isIgnored label component entries = true)
    : isIgnored label component entries' = true := by
  obtain ⟨entry, member, hit⟩ := List.any_eq_true.mp ignored
  exact List.any_eq_true.mpr ⟨entry, subset member, hit⟩

/-- A node that is open under the longer lists is open under the shorter ones. -/
theorem IgnoreLists.Within.open_of_many (within : few.Within many) (h : Open (c.ignoring many) n)
    : Open (c.ignoring few) n := by
  obtain ⟨element, heard⟩ := h
  refine ⟨element, ?_⟩
  rw [Bool.eq_false_iff] at heard ⊢
  exact fun ignored => heard (isIgnored_of_subset within.components ignored)

/-- An attribute that is present after fewer additions is present after more. -/
theorem hasAttribute_redraw_mono (element : n.isElement = true)
    (kept : namesOf (r'.added []) ⊆ namesOf (r.added [])) {label : String} (proper : label ≠ "")
    (present : (n.redraw r').hasAttribute label = true)
    : (n.redraw r).hasAttribute label = true := by
  rw [Node.hasAttribute_redraw element _ proper] at present ⊢
  exact present.imp_right fun given => kept given

/-- An attribute that is missing after fewer additions was given by more, or is missing after them
too.
-/
theorem missing_or_given (element : n.isElement = true) {label : String} (proper : label ≠ "")
    (missing : ¬ (n.redraw r').hasAttribute label = true)
    : label ∈ namesOf (r.added []) ∨ ¬ (n.redraw r).hasAttribute label = true := by
  rw [Node.hasAttribute_redraw element _ proper, not_or] at missing ⊢
  by_cases given : label ∈ namesOf (r.added [])
  · exact Or.inl given
  · exact Or.inr ⟨missing.1, given⟩

/-- A name that a node gains under the full policy and the longer lists was given to it under the
shorter ones, or it gains it now, provided that it was given no more names before.
-/
theorem IgnoreLists.Within.mem_fullInjection (within : few.Within many)
    (kept : namesOf (r'.added []) ⊆ namesOf (r.added []))
    (gained : name ∈ namesOf (fullInjection (c.ignoring many) (n.redraw r')).additions)
    : name ∈ namesOf (r.added [])
      ∨ name ∈ namesOf (fullInjection (c.ignoring few) (n.redraw r)).additions := by
  obtain ⟨_, _, _, ownProper, componentProper, fileProper⟩ := c.settings.attributeNames_distinct
  by_cases isOpen : Open (c.ignoring many) n
  · have element := isElement_of_classify isOpen.1
    have openMany : Open (c.ignoring many) (n.redraw r') := (open_redraw _ _ _).mpr isOpen
    have openFew : Open (c.ignoring few) (n.redraw r) :=
      (open_redraw _ _ _).mpr (within.open_of_many isOpen)
    rw [namesOf, mem_fullInjection_of_open openMany] at gained
    rw [namesOf, namesOf, mem_fullInjection_of_open openFew]
    rcases gained with ⟨rfl, absent, unlisted⟩ | ⟨rfl, named, absent⟩ | ⟨rfl, allowed, file, absent⟩
    · refine (missing_or_given element ownProper absent).imp_right fun still => Or.inl ⟨rfl, still, ?_⟩
      rw [Node.elementName_redraw] at unlisted ⊢
      exact fun listed => unlisted (within.elements listed)
    · exact (missing_or_given element componentProper absent).imp_right
        fun still => Or.inr (Or.inl ⟨rfl, named, still⟩)
    · refine (missing_or_given element fileProper absent).imp_right
        fun still => Or.inr (Or.inr ⟨rfl, allowed.imp_right ?_, file, still⟩)
      -- an element that is suppressed under the shorter lists is suppressed under the longer ones
      rintro visible ⟨unmarked, listed⟩
      rw [Node.elementName_redraw] at listed
      refine visible ⟨fun marked => unmarked ?_, ?_⟩
      · exact hasAttribute_redraw_mono element kept ownProper marked
      · rw [Node.elementName_redraw]
        exact within.elements listed
  · rw [fullInjection_of_not_open (mt (open_redraw _ _ _).mp isOpen)] at gained
    cases gained

/-- The same under the legacy policy. -/
theorem IgnoreLists.Within.mem_legacyInjection (within : few.Within many)
    (gained : name ∈ namesOf (legacyInjection (c.ignoring many) (n.redraw r')).additions)
    : name ∈ namesOf (r.added [])
      ∨ name ∈ namesOf (legacyInjection (c.ignoring few) (n.redraw r)).additions := by
  obtain ⟨_, _, _, _, componentProper, _⟩ := c.settings.attributeNames_distinct
  by_cases host : OpenHost (c.ignoring many) n
  · have element := isElement_of_classify host.1.1
    have hostMany : OpenHost (c.ignoring many) (n.redraw r') := (openHost_redraw _ _ _).mpr host
    have hostFew : OpenHost (c.ignoring few) (n.redraw r) :=
      (openHost_redraw _ _ _).mpr ⟨within.open_of_many host.1, host.2⟩
    rw [namesOf, legacyInjection_of_openHost hostMany, Node.mem_missingAttribute] at gained
    rw [namesOf, namesOf, legacyInjection_of_openHost hostFew, Node.mem_missingAttribute]
    obtain ⟨rfl, named, absent⟩ := gained
    exact (missing_or_given element componentProper absent).imp_right
      fun still => ⟨rfl, named, still⟩
  · rw [legacyInjection_of_not_openHost (mt (openHost_redraw _ _ _).mp host)] at gained
    cases gained

/-- What an element gains under the policy of a context. -/
theorem IgnoreLists.Within.mem_injection (within : few.Within many)
    (kept : namesOf (r'.added []) ⊆ namesOf (r.added []))
    (gained : name ∈ namesOf ((c.ignoring many).injection (n.redraw r')).additions)
    : name ∈ namesOf (r.added [])
      ∨ name ∈ namesOf ((c.ignoring few).injection (n.redraw r)).additions := by
  unfold Context.injection at gained ⊢
  cases policy : c.settings.policy with
  | full =>
      simp only [Context.ignoring, Settings.ignoring, policy] at gained ⊢
      exact within.mem_fullInjection kept gained
  | legacy =>
      simp only [Context.ignoring, Settings.ignoring, policy] at gained ⊢
      exact within.mem_legacyInjection gained

end

-----------------------------------------------------------------------------------------
-- What a visit adds
-----------------------------------------------------------------------------------------

namespace Context

/-- What a pass adds under lists that do not silence the component, full policy: the node that is met
is the same under all lists.
-/
theorem added_pass_full {c : Context} (policy : c.settings.policy = .full) {lists : IgnoreLists}
    (heard : ¬ (c.ignoring lists).Ignored) (root : Node) (r : Redraw) (way : Address)
    : (c.ignoring lists).pass.added (root.redraw r) way
      = ((fullDescent c).meet c.component root way).elim [] fun met =>
          (fullInjection ((c.withComponent met.1).ignoring lists)
            (met.2.redraw (r.under way))).additions := by
  have same : (fullDescent (c.ignoring lists)).meet (c.ignoring lists).component root way
      = (fullDescent c).meet c.component root way :=
    meet_fullDescent_ignoring c lists c.component root way
  rw [pass_of_full heard policy, Pass.added, Descent.added_eq_meet,
    Descent.meet_redraw (fullDescent_lawful _), same]
  cases (fullDescent c).meet c.component root way <;> rfl

/-- The same for the legacy policy. -/
theorem added_pass_legacy {c : Context} (policy : c.settings.policy = .legacy)
    {lists : IgnoreLists} (heard : ¬ (c.ignoring lists).Ignored) (root : Node) (r : Redraw)
    (way : Address)
    : (c.ignoring lists).pass.added (root.redraw r) way
      = ((legacyDescent c).meet () root way).elim [] fun met =>
          (legacyInjection (c.ignoring lists) (met.2.redraw (r.under way))).additions := by
  have same := meet_legacyDescent_ignoring c lists root way
  rw [pass_of_legacy heard policy, Pass.added, Descent.added_eq_meet,
    Descent.meet_redraw (legacyDescent_lawful _), same]
  cases (legacyDescent c).meet () root way <;> rfl

/-- A pass adds nothing to an address under any lists, or it meets a node there in one state, and what
that node gains is added under all lists that do not silence the component.
-/
theorem added_pass_ignoring (c : Context) (root : Place) (way : Address)
    : (∀ lists r, (c.ignoring lists).pass.added (root.node.redraw r) way = [])
      ∨ ∃ t n,
          root.Reaches ⟨root.address ++ way, n⟩
          ∧ (t = c.component ∨ t = "")
          ∧ ∀ lists r,
              ¬ (c.ignoring lists).Ignored
              → (c.ignoring lists).pass.added (root.node.redraw r) way
                = (((c.withComponent t).ignoring lists).injection
                    (n.redraw (r.under way))).additions := by
  cases policy : c.settings.policy with
  | full =>
      cases met : (fullDescent c).meet c.component root.node way with
      | none =>
          left
          intro lists r
          by_cases ignored : (c.ignoring lists).Ignored
          · exact added_pass_of_ignored ignored _ way
          · rw [added_pass_full policy ignored, met]
            rfl
      | some found =>
          right
          refine ⟨found.1, found.2, Descent.reaches_of_meet met root.address,
            fullDescent_state met, ?_⟩
          intro lists r heard
          rw [added_pass_full policy heard, met, injection]
          simp only [ignoring, Settings.ignoring, withComponent, policy, Option.elim_some]
  | legacy =>
      cases met : (legacyDescent c).meet () root.node way with
      | none =>
          left
          intro lists r
          by_cases ignored : (c.ignoring lists).Ignored
          · exact added_pass_of_ignored ignored _ way
          · rw [added_pass_legacy policy ignored, met]
            rfl
      | some found =>
          right
          refine ⟨c.component, found.2, Descent.reaches_of_meet met root.address, Or.inl rfl, ?_⟩
          intro lists r heard
          rw [added_pass_legacy policy heard, met, injection]
          simp only [ignoring, Settings.ignoring, withComponent, policy, Option.elim_some]

end Context

namespace Ast.Program

variable {p : Program} {few many : IgnoreLists} {c : Context}

/-- A name that a visit adds under the longer lists was given before under the shorter ones, or the
visit adds it under them too, provided that no more names were given before.
-/
theorem mem_addedAt_ignoring (within : few.Within many) {root : Place} (has : p.Has root)
    {given given' : Address → List (String × String)} {b : Address}
    (kept : namesOf (given' b) ⊆ namesOf (given b)) {name : String}
    (gained
      : name ∈ namesOf ((p.redraw (.adding given')).addedAt (c.ignoring many) root.address b))
    : name ∈ namesOf (given b)
      ∨ name ∈ namesOf ((p.redraw (.adding given)).addedAt (c.ignoring few) root.address b) := by
  rw [addedAt_of_get? (get?_redraw_of_has has _)] at gained ⊢
  have somewhere : addedUnder _ root.address b ≠ [] := fun nothing => by
    rw [nothing] at gained
    cases gained
  obtain ⟨way, rfl⟩ := exists_append_of_addedUnder somewhere
  rw [addedUnder_append] at gained ⊢
  have heard : ¬ (c.ignoring many).Ignored := by
    intro ignored
    rw [Context.added_pass_of_ignored ignored] at gained
    cases gained
  have heardFew : ¬ (c.ignoring few).Ignored :=
    fun ⟨proper, listed⟩ => heard ⟨proper, within.components listed⟩
  rcases c.added_pass_ignoring root way with nothing | ⟨t, n, _, _, same⟩
  · rw [nothing] at gained
    cases gained
  · rw [same _ _ heard] at gained
    rw [same _ _ heardFew]
    have here (given : Address → List (String × String))
        : (((Redraw.adding given).under root.address).under way).added []
          = given (root.address ++ way) := by
      simp [Redraw.under]
    rw [← here given] at kept ⊢
    rw [← here given'] at kept
    exact within.mem_injection (c := c.withComponent t) kept gained

/-- What visits add under the longer lists they add under the shorter ones, by induction from the
last visit.
-/
theorem mem_addedBy_ignoring (within : few.Within many) {visited : List (Component × Place)}
    (has : ∀ visit ∈ visited, p.Has visit.2) (a : Address)
    : namesOf (p.addedBy (c.ignoring many) visited a)
      ⊆ namesOf (p.addedBy (c.ignoring few) visited a) := by
  induction visited using List.reverseRecOn with
  | nil => exact List.Subset.refl _
  | append_singleton before visit ih =>
      obtain ⟨hasBefore, hasVisit⟩ := forall_mem_concat.mp has
      have earlier := ih hasBefore
      intro name member
      rw [addedBy_concat, namesOf, List.map_append, List.mem_append] at member ⊢
      rcases member with given | gained
      · exact Or.inl (earlier given)
      · exact mem_addedAt_ignoring (c := c.withComponent visit.1.name) within hasVisit earlier gained

end Ast.Program
end JsxProvenance
