import JsxProvenance.Proofs.Annotation.Descent
import JsxProvenance.Proofs.Discovery

/-! The two policies as descents. Each policy keeps the laws of descents, because every attribute is
looked for by name before it is added, so that what a policy does to a tree is a drawing of it.
-/

namespace JsxProvenance

open Ast

-----------------------------------------------------------------------------------------
-- Attributes of a drawing
-----------------------------------------------------------------------------------------

theorem any_isAttribute_listRedraw (r : Nat → Redraw) (name : String) (nodes : List Node)
    : (Node.listRedraw r nodes).any (Node.isAttribute name)
      = nodes.any (Node.isAttribute name) := by
  induction nodes generalizing r with
  | nil => rfl
  | cons n rest ih =>
      rw [Node.listRedraw, List.any_cons, List.any_cons, Node.isAttribute_redraw, ih]

/-- An element that is drawn anew carries the attributes it had and those it gains. -/
theorem Ast.Node.hasAttribute_redraw {n : Node} (element : n.isElement = true) (r : Redraw)
    {name : String} (proper : name ≠ "")
    : (n.redraw r).hasAttribute name = true
      ↔ n.hasAttribute name = true ∨ name ∈ (r.added []).map (·.1) := by
  cases n with
  | element p tag attrs children sc off =>
      have gained : (r.gained p).any (isAttribute name) = true
          ↔ name ∈ (r.added []).map (·.1) := by
        simp [Redraw.gained, insertedAttributes, isAttribute]
      simp only [redraw, hasAttribute, attributes, List.any_append, any_isAttribute_listRedraw,
        Bool.and_eq_true, Bool.or_eq_true, gained, bne_iff_ne, ne_eq, proper, not_false_eq_true,
        true_and]
  | _ => simp [isElement] at element

theorem Ast.Node.hasAttribute_redraw_plain {r : Redraw} (plain : r.added [] = []) (n : Node)
    (name : String)
    : (n.redraw r).hasAttribute name = n.hasAttribute name := by
  cases n with
  | element p tag attrs children sc off =>
      have gained : r.gained p = [] := by rw [Redraw.gained, plain]; rfl
      simp only [redraw, hasAttribute, attributes, gained, List.append_nil,
        any_isAttribute_listRedraw]
  | _ => rfl

theorem isElement_of_classify {aliases? : Option Aliases} {n : Node}
    (h : classify aliases? n = .element)
    : n.isElement = true := by
  unfold classify at h
  split at h
  · cases h
  · cases n with
    | element => rfl
    | leaf p form => cases form <;> cases h
    | _ => cases h

/-- The three tracking attributes have different names, and none is empty. -/
theorem Settings.attributeNames_distinct (s : Settings)
    : s.attributeNames.element ≠ s.attributeNames.component
      ∧ s.attributeNames.element ≠ s.attributeNames.sourceFile
      ∧ s.attributeNames.component ≠ s.attributeNames.sourceFile
      ∧ s.attributeNames.element ≠ ""
      ∧ s.attributeNames.component ≠ ""
      ∧ s.attributeNames.sourceFile ≠ "" := by
  unfold attributeNames
  split <;> decide

-----------------------------------------------------------------------------------------
-- What an element gains under the full policy
-----------------------------------------------------------------------------------------

theorem Ast.Node.mem_missingAttribute {n : Node} {name value other : String}
    : other ∈ (n.missingAttribute name value).map (·.1)
      ↔ other = name ∧ value ≠ "" ∧ ¬ n.hasAttribute name = true := by
  unfold missingAttribute
  split <;> simp_all

/-- A node that an annotation policy can give attributes to: an element whose name and component
are not ignored.
-/
def Open (c : Context) (n : Node) : Prop :=
  classify (some c.aliases) n = .element
  ∧ isIgnored n.elementName c.component c.settings.ignoredComponents = false

/-- The element attribute is left out, since the tag is on the list of ignored elements. -/
def Suppressed (s : Settings) (n : Node) : Prop :=
  ¬ n.hasAttribute s.attributeNames.element = true ∧ n.elementName ∈ s.ignoredElements

@[simp]
theorem open_redraw (c : Context) (r : Redraw) (n : Node) : Open c (n.redraw r) ↔ Open c n := by
  simp [Open]

/-- The names of the attributes that an open node gains under the full policy. -/
theorem mem_fullInjection_of_open {c : Context} {n : Node} (h : Open c n) (name : String)
    : name ∈ (fullInjection c n).additions.map (·.1)
      ↔ (name = c.settings.attributeNames.element
          ∧ ¬ n.hasAttribute c.settings.attributeNames.element = true
          ∧ n.elementName ∉ c.settings.ignoredElements)
        ∨ (name = c.settings.attributeNames.component
          ∧ c.component ≠ ""
          ∧ ¬ n.hasAttribute c.settings.attributeNames.component = true)
        ∨ (name = c.settings.attributeNames.sourceFile
          ∧ (c.component ≠ "" ∨ ¬ Suppressed c.settings n)
          ∧ c.settings.sourceFileName.getD "" ≠ ""
          ∧ ¬ n.hasAttribute c.settings.attributeNames.sourceFile = true) := by
  obtain ⟨element, unignored⟩ := h
  have allowed_iff
      : (c.component != "" || !(!n.hasAttribute c.settings.attributeNames.element
            && decide (n.elementName ∈ c.settings.ignoredElements))) = true
        ↔ c.component ≠ "" ∨ ¬ Suppressed c.settings n := by
    cases present : n.hasAttribute c.settings.attributeNames.element <;>
      simp [Suppressed, present]
  simp only [fullInjection, element, unignored, bne_self_eq_false, Bool.false_eq_true, if_false,
    List.map_append, List.mem_append]
  rw [or_assoc]
  refine or_congr ?_ (or_congr ?_ ?_)
  · cases n.hasAttribute c.settings.attributeNames.element <;>
      by_cases listed : n.elementName ∈ c.settings.ignoredElements <;> simp [listed]
  · exact Node.mem_missingAttribute
  · by_cases allowed : c.component ≠ "" ∨ ¬ Suppressed c.settings n
    · rw [if_pos (allowed_iff.mpr allowed), Node.mem_missingAttribute, and_iff_right allowed]
    · rw [if_neg fun h => allowed (allowed_iff.mp h)]
      simp [allowed]

theorem fullInjection_of_not_open {c : Context} {n : Node} (h : ¬ Open c n)
    : (fullInjection c n).additions = [] := by
  by_cases element : classify (some c.aliases) n = .element
  · have ignored : isIgnored n.elementName c.component c.settings.ignoredComponents = true := by
      simpa [Open, element] using h
    simp [fullInjection, element, ignored]
  · simp [fullInjection, element]

theorem Suppressed.redraw {s : Settings} {r : Redraw} {n : Node} (element : n.isElement = true)
    (spares : s.Spares n (r.added [])) (h : Suppressed s n)
    : Suppressed s (n.redraw r) := by
  obtain ⟨absent, listed⟩ := h
  refine ⟨?_, by rwa [Node.elementName_redraw]⟩
  rw [Node.hasAttribute_redraw element r s.attributeNames_distinct.2.2.2.1]
  exact fun present => present.elim absent (spares listed)

/-- What an open node gains after a drawing that spares it, it gained before and was not given. -/
theorem mem_fullInjection_redraw {c : Context} {r : Redraw} {n : Node} {name : String}
    (h : Open c n) (spares : c.settings.Spares n (r.added []))
    (member : name ∈ (fullInjection c (n.redraw r)).additions.map (·.1))
    : name ∈ (fullInjection c n).additions.map (·.1) ∧ name ∉ (r.added []).map (·.1) := by
  obtain ⟨_, _, _, tagProper, componentProper, fileProper⟩ := c.settings.attributeNames_distinct
  have element := isElement_of_classify h.1
  rw [mem_fullInjection_of_open ((open_redraw c r n).mpr h), Node.elementName_redraw,
    Node.hasAttribute_redraw element r tagProper,
    Node.hasAttribute_redraw element r componentProper,
    Node.hasAttribute_redraw element r fileProper] at member
  rw [mem_fullInjection_of_open h]
  rcases member with ⟨rfl, absent, unlisted⟩ | ⟨rfl, named, absent⟩ | ⟨rfl, allowed, given, absent⟩
  · rw [not_or] at absent
    exact ⟨Or.inl ⟨rfl, absent.1, unlisted⟩, absent.2⟩
  · rw [not_or] at absent
    exact ⟨Or.inr (Or.inl ⟨rfl, named, absent.1⟩), absent.2⟩
  · rw [not_or] at absent
    have before : c.component ≠ "" ∨ ¬ Suppressed c.settings n :=
      allowed.imp_right fun open' suppressed => open' (suppressed.redraw element spares)
    exact ⟨Or.inr (Or.inr ⟨rfl, before, given, absent.1⟩), absent.2⟩

theorem fullInjection_plain {c : Context} {r : Redraw} (plain : r.added [] = []) (n : Node)
    : fullInjection c (n.redraw r) = fullInjection c n := by
  simp only [fullInjection, classify_redraw, Node.elementName_redraw, Node.missingAttribute,
    Node.hasAttribute_redraw_plain plain]

-----------------------------------------------------------------------------------------
-- The full policy as a descent
-----------------------------------------------------------------------------------------

/-- The full policy: the state is the component name, which goes to the root, or from a root
fragment to its first element child.
-/
def fullDescent (c : Context) : Descent String where
  gains name n := (fullInjection (c.withComponent name) n).additions
  enter name n :=
    some (if isFragment (some c.aliases) n && c.settings.annotateFragments then name else "")
  child name n := if classify (some c.aliases) n == .element then name else ""
  rest name n := if classify (some c.aliases) n == .element then "" else name

/-- The full policy keeps the laws of descents. -/
theorem fullDescent_lawful (c : Context) : (fullDescent c).Lawful c.settings where
  elements name n plain := by
    apply fullInjection_of_not_open
    intro h
    rw [isElement_of_classify h.1] at plain
    cases plain
  enter name r n := by simp only [fullDescent, isFragment_redraw]
  child name r n := by simp only [fullDescent, classify_redraw]
  rest name r n := by simp only [fullDescent, classify_redraw]
  plain name r n plain := by
    exact congrArg Injection.additions (fullInjection_plain plain n)
  spares name n listed member := by
    obtain ⟨component, file, _⟩ := c.settings.attributeNames_distinct
    by_cases h : Open (c.withComponent name) n
    · rcases (mem_fullInjection_of_open h _).mp member with ⟨_, _, unlisted⟩ | ⟨same, _⟩ | ⟨same, _⟩
      · exact unlisted listed
      · exact component same
      · exact file same
    · simp only [fullDescent, fullInjection_of_not_open h, List.map_nil] at member
      exact List.not_mem_nil member
  fresh {name r n other} spares member := by
    by_cases h : Open (c.withComponent name) n
    · exact mem_fullInjection_redraw h spares member
    · have closed := fullInjection_of_not_open (mt (open_redraw _ r n).mp h)
      simp only [fullDescent, closed, List.map_nil] at member
      exact absurd member List.not_mem_nil

mutual

/-- The full policy draws a tree anew with what its descent adds, and counts it. -/
theorem annotateFull_eq (c : Context) (name : String) (n : Node)
    : annotateFull c name n
      = (n.redraw (.adding ((fullDescent c).added name n)), (fullDescent c).count name n) := by
  cases n with
  | element p tag attrs children sc off =>
      rw [annotateFull, annotateFullList_eq c _ children, Descent.redraw_element]
      rfl
  | group p form parts =>
      cases form with
      | jsxFragment =>
          rw [annotateFull, annotateFullList_eq c _ parts, Descent.redraw_fragment]
          rfl
      | _ =>
          rw [annotateFull, Descent.redraw_of_not_jsx _ rfl, Descent.count_of_not_jsx _ rfl]
          all_goals nofun
  | _ =>
      rw [annotateFull, Descent.redraw_of_not_jsx _ rfl, Descent.count_of_not_jsx _ rfl]
      all_goals nofun
termination_by sizeOf n

theorem annotateFullList_eq (c : Context) (name : String) (nodes : List Node)
    : annotateFullList c name nodes
      = (Node.listRedraw ((fullDescent c).listAdded (some name) nodes) nodes,
          (fullDescent c).listCount name nodes) := by
  cases nodes with
  | nil => rfl
  | cons n rest =>
      rw [annotateFullList, annotateFull_eq c _ n, annotateFullList_eq c _ rest]
      rfl
termination_by sizeOf nodes

end

-----------------------------------------------------------------------------------------
-- The legacy policy as a descent
-----------------------------------------------------------------------------------------

/-- A host element whose name and component are not ignored. -/
def OpenHost (c : Context) (n : Node) : Prop :=
  Open c n ∧ isHostElement n.elementName = true

@[simp]
theorem openHost_redraw (c : Context) (r : Redraw) (n : Node)
    : OpenHost c (n.redraw r) ↔ OpenHost c n := by
  simp [OpenHost]

theorem legacyInjection_of_not_openHost {c : Context} {n : Node} (h : ¬ OpenHost c n)
    : (legacyInjection c n).additions = [] := by
  by_cases element : classify (some c.aliases) n = .element
  · by_cases host : isHostElement n.elementName = true
    · have ignored : isIgnored n.elementName c.component c.settings.ignoredComponents = true := by
        simpa [OpenHost, Open, element, host] using h
      simp [legacyInjection, element, host, ignored]
    · simp [legacyInjection, element, host]
  · simp [legacyInjection, element]

theorem legacyInjection_of_openHost {c : Context} {n : Node} (h : OpenHost c n)
    : (legacyInjection c n).additions
      = n.missingAttribute c.settings.attributeNames.component c.component := by
  obtain ⟨⟨element, unignored⟩, host⟩ := h
  simp [legacyInjection, element, host, unignored]

/-- Whether the legacy policy stops at a node does not see a drawing. -/
theorem target_legacyInjection_redraw (c : Context) (r : Redraw) (n : Node)
    : (legacyInjection c (n.redraw r)).target = (legacyInjection c n).target := by
  simp only [legacyInjection, classify_redraw, Node.elementName_redraw]
  split
  · rfl
  · split
    · rfl
    · split <;> rfl

theorem additions_of_not_target {c : Context} {n : Node}
    (h : (legacyInjection c n).target = false)
    : (legacyInjection c n).additions = [] := by
  apply legacyInjection_of_not_openHost
  rintro ⟨⟨element, unignored⟩, host⟩
  simp [legacyInjection, element, host, unignored] at h

/-- The legacy policy: there is one component name all the way down, and a target ends the way. -/
def legacyDescent (c : Context) : Descent Unit where
  gains _ n := (legacyInjection c n).additions
  enter _ n := if (legacyInjection c n).target then none else some ()
  child _ _ := ()
  rest _ _ := ()

/-- The legacy policy keeps the laws of descents. -/
theorem legacyDescent_lawful (c : Context) : (legacyDescent c).Lawful c.settings where
  elements _ n plain := by
    apply legacyInjection_of_not_openHost
    intro h
    rw [isElement_of_classify h.1.1] at plain
    cases plain
  enter _ r n := by simp only [legacyDescent, target_legacyInjection_redraw]
  child _ _ _ := rfl
  rest _ _ _ := rfl
  plain _ r n plain := by
    by_cases h : OpenHost c n
    · simp only [legacyDescent, legacyInjection_of_openHost h,
        legacyInjection_of_openHost ((openHost_redraw c r n).mpr h), Node.missingAttribute,
        Node.hasAttribute_redraw_plain plain]
    · simp only [legacyDescent, legacyInjection_of_not_openHost h,
        legacyInjection_of_not_openHost (mt (openHost_redraw c r n).mp h)]
  spares _ n _ member := by
    by_cases h : OpenHost c n
    · simp only [legacyDescent, legacyInjection_of_openHost h, Node.mem_missingAttribute] at member
      exact c.settings.attributeNames_distinct.1 member.1
    · simp only [legacyDescent, legacyInjection_of_not_openHost h, List.map_nil] at member
      exact List.not_mem_nil member
  fresh {_ r n other} _ member := by
    obtain ⟨_, _, _, _, proper, _⟩ := c.settings.attributeNames_distinct
    by_cases h : OpenHost c n
    · simp only [legacyDescent, legacyInjection_of_openHost ((openHost_redraw c r n).mpr h),
        Node.mem_missingAttribute,
        Node.hasAttribute_redraw (isElement_of_classify h.1.1) r proper] at member
      obtain ⟨rfl, named, absent⟩ := member
      rw [not_or] at absent
      simp only [legacyDescent, legacyInjection_of_openHost h, Node.mem_missingAttribute]
      exact ⟨⟨trivial, named, absent.1⟩, absent.2⟩
    · have closed := legacyInjection_of_not_openHost (mt (openHost_redraw c r n).mp h)
      simp only [legacyDescent, closed, List.map_nil] at member
      exact absurd member List.not_mem_nil

mutual

/-- The legacy policy draws a tree anew with what its descent adds, and counts it. -/
theorem annotateLegacy_eq (c : Context) (n : Node)
    : annotateLegacy c n
      = (n.redraw (.adding ((legacyDescent c).added () n)), (legacyDescent c).count () n) := by
  cases n with
  | element p tag attrs children sc off =>
      rw [annotateLegacy, annotateLegacyList_eq c children, Descent.redraw_element,
        Descent.count]
      cases target : (legacyInjection c (.element p tag attrs children sc off)).target with
      | true =>
          simp only [legacyDescent, target, Injection.apply, Node.appendAttributes, if_true,
            Descent.listRedraw_listAdded_none, Option.elim_none, Nat.add_zero]
      | false =>
          simp only [legacyDescent, target, Bool.false_eq_true, if_false, Option.elim_some,
            additions_of_not_target target, Node.insertedAttributes, List.map_nil,
            List.append_nil, List.length_nil, Nat.zero_add]
  | group p form parts =>
      cases form with
      | jsxFragment =>
          rw [annotateLegacy, annotateLegacyList_eq c parts, Descent.redraw_fragment]
          rfl
      | _ =>
          rw [annotateLegacy, Descent.redraw_of_not_jsx _ rfl, Descent.count_of_not_jsx _ rfl]
          all_goals nofun
  | _ =>
      rw [annotateLegacy, Descent.redraw_of_not_jsx _ rfl, Descent.count_of_not_jsx _ rfl]
      all_goals nofun
termination_by sizeOf n

theorem annotateLegacyList_eq (c : Context) (nodes : List Node)
    : annotateLegacyList c nodes
      = (Node.listRedraw ((legacyDescent c).listAdded (some ()) nodes) nodes,
          (legacyDescent c).listCount () nodes) := by
  cases nodes with
  | nil => rfl
  | cons n rest =>
      rw [annotateLegacyList, annotateLegacy_eq c n, annotateLegacyList_eq c rest]
      rfl
termination_by sizeOf nodes

end

end JsxProvenance
