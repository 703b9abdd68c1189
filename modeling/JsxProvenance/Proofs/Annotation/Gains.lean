import Mathlib.Data.List.Nodup
import JsxProvenance.Proofs.Annotation.Roots
import JsxProvenance.Proofs.Tree.Outline
import JsxProvenance.Proofs.Tree.Region

/-! What a node gains when annotation starts at a root. A descent meets the nodes of the root's
region only, each in one state, and what a node gains depends on what it has been given itself and
on nothing that other nodes were given. Under each policy a node gains an attribute of a name at
most once, under one of the three names in use, and only if it does not carry the name.
-/

namespace JsxProvenance

open Ast

-----------------------------------------------------------------------------------------
-- The node that a descent meets
-----------------------------------------------------------------------------------------

namespace Descent

variable {σ : Type} (d : Descent σ) {c : Settings}

/-- The node that a descent meets at an address, with its state. -/
def meet : σ → Node → Address → Option (σ × Node)
  | s, n, [] => some (s, n)
  | s, n, step :: rest => (d.follow s n step).bind fun (below, part) => meet below part rest

/-- What is added at an address is what the node that is met there gains. -/
theorem added_eq_meet (s : σ) (n : Node) (a : Address)
    : d.added s n a = (d.meet s n a).elim [] fun met => d.gains met.1 met.2 := by
  induction a generalizing s n with
  | nil => rfl
  | cons step rest ih =>
      rw [added, meet]
      cases d.follow s n step with
      | none => rfl
      | some met => exact ih met.1 met.2

variable {d}

/-- The nodes of a drawing are met in the same states, by induction on the address. -/
theorem meet_redraw (lawful : d.Lawful c) (s : σ) (r : Redraw) (n : Node) (a : Address)
    : d.meet s (n.redraw r) a
      = (d.meet s n a).map fun met => (met.1, met.2.redraw (r.under a)) := by
  induction a generalizing s r n with
  | nil => rfl
  | cons step rest ih =>
      rw [meet, meet, follow_redraw lawful]
      cases d.follow s n step with
      | none => rfl
      | some met => exact ih met.1 (r.below step) met.2

/-- What a node gains depends only on what it was given itself. -/
theorem Lawful.congr (lawful : d.Lawful c) (s : σ) (n : Node)
    {given other : Address → List (String × String)} (same : given [] = other [])
    : d.gains s (n.redraw (.adding given)) = d.gains s (n.redraw (.adding other)) := by
  -- what is given further down can be given later, and then it is not seen
  have here (given : Address → List (String × String))
      : d.gains s (n.redraw (.adding given))
        = d.gains s (n.redraw (.adding fun a => if a = [] then given [] else [])) := by
    have split : n.redraw (.adding given)
        = (n.redraw (.adding fun a => if a = [] then given [] else [])).redraw
            (.adding fun a => if a = [] then [] else given a) := by
      rw [Node.redraw_redraw_adding]
      refine congrArg (fun added => n.redraw (.adding added)) (funext fun a => ?_)
      by_cases top : a = [] <;> simp [top]
    rw [split]
    exact lawful.plain s _ _ rfl
  rw [here given, here other, same]

/-- What is added at an address depends only on what the node there was given. -/
theorem added_congr (lawful : d.Lawful c) (s : σ) (n : Node)
    {given other : Address → List (String × String)} {a : Address} (same : given a = other a)
    : d.added s (n.redraw (.adding given)) a = d.added s (n.redraw (.adding other)) a := by
  rw [added_eq_meet, added_eq_meet, meet_redraw lawful, meet_redraw lawful]
  cases d.meet s n a with
  | none => rfl
  | some met =>
      refine lawful.congr met.1 met.2 ?_
      rwa [List.append_nil]

/-- A node that is met one step below is a child of JSX, by cases on the nodes that have some. -/
theorem mem_jsxChildren_of_follow {s below : σ} {n part : Node} {step : Step}
    (met : d.follow s n step = some (below, part)) (a : Address)
    : Place.mk (a ++ [step]) part ∈ Place.jsxChildren ⟨a, n⟩ := by
  obtain ⟨⟨siblings, i⟩, found, met⟩ := Option.bind_eq_some_iff.mp met
  obtain ⟨inside, _, reached⟩ := Option.bind_eq_some_iff.mp met
  have member := getElem?_of_reach reached
  cases n with
  | element p name attrs children sc off =>
      cases step <;> cases found
      exact Place.mem_mapIdx_place.mpr ⟨i, member, rfl⟩
  | group p form parts =>
      cases form <;> cases step <;> cases found
      exact Place.mem_mapIdx_place.mpr ⟨i, member, rfl⟩
  | _ => cases found

/-- A node that is met is in the region of the root, by induction on the address. -/
theorem reaches_of_meet {s t : σ} {n m : Node} {b : Address} (met : d.meet s n b = some (t, m))
    (a : Address)
    : Place.Reaches ⟨a, n⟩ ⟨a ++ b, m⟩ := by
  induction b generalizing s n a with
  | nil =>
      cases met
      rw [List.append_nil]
      exact .refl _
  | cons step rest ih =>
      obtain ⟨⟨below, part⟩, first, met⟩ := Option.bind_eq_some_iff.mp met
      have child := (Place.Reaches.refl _).child (mem_jsxChildren_of_follow first a)
      have later := ih met (a ++ [step])
      rw [List.append_assoc, List.singleton_append] at later
      exact child.trans later

theorem reach_invariant {I : σ → Prop} (child : ∀ s n, I s → I (d.child s n))
    (rest : ∀ s n, I s → I (d.rest s n)) {s t : σ} (start : I s) {nodes : List Node} {i : Nat}
    {m : Node} (met : d.reach s nodes i = some (t, m))
    : I t := by
  induction nodes generalizing s i with
  | nil => cases met
  | cons n later ih =>
      cases i with
      | zero =>
          cases met
          exact child s _ start
      | succ i => exact ih (rest s n start) met

/-- A property of states that the way down keeps holds in each state in which a node is met, by
induction on the address.
-/
theorem meet_invariant {I : σ → Prop}
    (enter : ∀ s n inside, d.enter s n = some inside → I s → I inside)
    (child : ∀ s n, I s → I (d.child s n)) (rest : ∀ s n, I s → I (d.rest s n)) {s t : σ}
    (start : I s) {n m : Node} {a : Address} (met : d.meet s n a = some (t, m))
    : I t := by
  induction a generalizing s n with
  | nil =>
      cases met
      exact start
  | cons step later ih =>
      obtain ⟨⟨below, part⟩, first, met⟩ := Option.bind_eq_some_iff.mp met
      obtain ⟨_, _, first⟩ := Option.bind_eq_some_iff.mp first
      obtain ⟨inside, entered, reached⟩ := Option.bind_eq_some_iff.mp first
      exact ih (reach_invariant child rest (enter s _ inside entered start) reached) met

end Descent

-----------------------------------------------------------------------------------------
-- What an element can gain
-----------------------------------------------------------------------------------------

/-- An attribute that an element can be given: its own name, the component name if there is one,
or the source file if there is one.
-/
def Context.Offers (c : Context) (n : Node) (name value : String) : Prop :=
  name = c.settings.attributeNames.element ∧ value = n.elementName
  ∨ name = c.settings.attributeNames.component ∧ value = c.component ∧ value ≠ ""
  ∨ name = c.settings.attributeNames.sourceFile ∧ c.settings.sourceFileName = some value
    ∧ value ≠ ""

theorem Context.Offers.proper {c : Context} {n : Node} {name value : String}
    (offered : c.Offers n name value)
    : name ≠ "" := by
  obtain ⟨_, _, _, own, component, file⟩ := c.settings.attributeNames_distinct
  rcases offered with ⟨rfl, _⟩ | ⟨rfl, _⟩ | ⟨rfl, _⟩
  · exact own
  · exact component
  · exact file

@[simp]
theorem Context.offers_redraw {c : Context} {n : Node} {name value : String} (r : Redraw)
    : c.Offers (n.redraw r) name value ↔ c.Offers n name value := by
  simp [Offers]

/-- What a node can gain at a time: only an element gains something, no name twice and none that
it carries.
-/
structure Context.Grants (c : Context) (n : Node) (additions : List (String × String)) : Prop where
  element : additions ≠ [] → classify (some c.aliases) n = .element
  offered : ∀ name value, (name, value) ∈ additions → c.Offers n name value
  absent : ∀ name ∈ additions.map (·.1), n.hasAttribute name = false
  once : (additions.map (·.1)).Nodup

namespace Context

theorem Grants.nothing (c : Context) (n : Node) : c.Grants n [] where
  element none := absurd rfl none
  offered _ _ member := absurd member List.not_mem_nil
  absent _ member := absurd member List.not_mem_nil
  once := List.nodup_nil

/-- Without a component name a node can gain no more than with one. -/
theorem Grants.of_unnamed {c : Context} {n : Node} {additions : List (String × String)}
    (grants : (c.withComponent "").Grants n additions)
    : c.Grants n additions where
  element := grants.element
  offered name value member := by
    rcases grants.offered name value member with own | ⟨_, rfl, proper⟩ | file
    · exact Or.inl own
    · exact absurd rfl proper
    · exact Or.inr (Or.inr file)
  absent := grants.absent
  once := grants.once

theorem Grants.single {c : Context} {n : Node} (element : classify (some c.aliases) n = .element)
    {name value : String} (offered : c.Offers n name value) (absent : n.hasAttribute name = false)
    : c.Grants n [(name, value)] where
  element _ := element
  offered label text member := by
    cases List.mem_singleton.mp member
    exact offered
  absent label member := by
    cases List.mem_singleton.mp member
    exact absent
  once := List.nodup_singleton _

theorem Grants.missing {c : Context} {n : Node} (element : classify (some c.aliases) n = .element)
    {name value : String} (offered : value ≠ "" → c.Offers n name value)
    : c.Grants n (n.missingAttribute name value) := by
  unfold Node.missingAttribute
  split
  · next given =>
      rw [Bool.and_eq_true, bne_iff_ne, Bool.not_eq_true'] at given
      exact .single element (offered given.1) given.2
  · exact .nothing c n

theorem Grants.append {c : Context} {n : Node} {first second : List (String × String)}
    (left : c.Grants n first) (right : c.Grants n second)
    (apart : ∀ name ∈ first.map (·.1), name ∉ second.map (·.1))
    : c.Grants n (first ++ second) where
  element nonempty := by
    by_cases empty : first = []
    · subst empty
      exact right.element nonempty
    · exact left.element empty
  offered name value member :=
    (List.mem_append.mp member).elim (left.offered name value) (right.offered name value)
  absent name member := by
    rw [List.map_append] at member
    exact (List.mem_append.mp member).elim (left.absent name) (right.absent name)
  once := by
    rw [List.map_append]
    exact left.once.append right.once fun name here there => apart name here there

/-- The element attribute, unless it is present or the tag is on the list of ignored elements. -/
def ownAddition (c : Context) (n : Node) : List (String × String) :=
  if n.hasAttribute c.settings.attributeNames.element || n.elementName ∈ c.settings.ignoredElements
  then []
  else [(c.settings.attributeNames.element, n.elementName)]

/-- The component attribute, unless it is present or there is no component name. -/
def componentAddition (c : Context) (n : Node) : List (String × String) :=
  n.missingAttribute c.settings.attributeNames.component c.component

/-- The source file attribute, unless it is present, there is no source file, or the tag is on the
list of ignored elements and there is no component name.
-/
def fileAddition (c : Context) (n : Node) : List (String × String) :=
  if c.component != ""
      || (n.hasAttribute c.settings.attributeNames.element
        || !decide (n.elementName ∈ c.settings.ignoredElements))
  then n.missingAttribute c.settings.attributeNames.sourceFile (c.settings.sourceFileName.getD "")
  else []

/-- An open element gains the three attributes in this order under the full policy. -/
theorem fullInjection_of_open {c : Context} {n : Node} (h : Open c n)
    : (fullInjection c n).additions
      = c.ownAddition n ++ c.componentAddition n ++ c.fileAddition n := by
  obtain ⟨element, unignored⟩ := h
  simp only [fullInjection, ownAddition, componentAddition, fileAddition, element, unignored,
    bne_self_eq_false, Bool.false_eq_true, if_false]
  cases n.hasAttribute c.settings.attributeNames.element <;> simp

theorem name_of_mem_ownAddition {c : Context} {n : Node} {name : String}
    (member : name ∈ (c.ownAddition n).map (·.1))
    : name = c.settings.attributeNames.element := by
  unfold ownAddition at member
  split at member
  · cases member
  · simpa using member

theorem name_of_mem_componentAddition {c : Context} {n : Node} {name : String}
    (member : name ∈ (c.componentAddition n).map (·.1))
    : name = c.settings.attributeNames.component :=
  (Node.mem_missingAttribute.mp member).1

theorem name_of_mem_fileAddition {c : Context} {n : Node} {name : String}
    (member : name ∈ (c.fileAddition n).map (·.1))
    : name = c.settings.attributeNames.sourceFile := by
  unfold fileAddition at member
  split at member
  · exact (Node.mem_missingAttribute.mp member).1
  · cases member

theorem grants_ownAddition {c : Context} {n : Node} (h : Open c n)
    : c.Grants n (c.ownAddition n) := by
  unfold ownAddition
  split
  · exact .nothing c n
  · next missing =>
      rw [Bool.or_eq_true, not_or] at missing
      exact .single h.1 (Or.inl ⟨rfl, rfl⟩) (Bool.eq_false_iff.mpr missing.1)

theorem grants_componentAddition {c : Context} {n : Node} (h : Open c n)
    : c.Grants n (c.componentAddition n) :=
  .missing h.1 fun proper => Or.inr (Or.inl ⟨rfl, rfl, proper⟩)

theorem grants_fileAddition {c : Context} {n : Node} (h : Open c n)
    : c.Grants n (c.fileAddition n) := by
  unfold fileAddition
  split
  · refine .missing h.1 fun proper => Or.inr (Or.inr ⟨rfl, ?_, proper⟩)
    cases file : c.settings.sourceFileName with
    | none =>
        rw [file] at proper
        exact absurd rfl proper
    | some name => rfl
  · exact .nothing c n

theorem grants_full (c : Context) (n : Node) : c.Grants n (fullInjection c n).additions := by
  by_cases h : Open c n
  · obtain ⟨ownComponent, ownFile, componentFile, _⟩ := c.settings.attributeNames_distinct
    rw [fullInjection_of_open h]
    refine ((grants_ownAddition h).append (grants_componentAddition h) ?_).append
      (grants_fileAddition h) ?_
    · intro name own component
      obtain rfl := name_of_mem_ownAddition own
      exact ownComponent (name_of_mem_componentAddition component)
    · intro name before file
      obtain rfl := name_of_mem_fileAddition file
      rw [List.map_append, List.mem_append] at before
      rcases before with own | component
      · exact ownFile (name_of_mem_ownAddition own).symm
      · exact componentFile (name_of_mem_componentAddition component).symm
  · rw [fullInjection_of_not_open h]
    exact .nothing c n

theorem grants_legacy (c : Context) (n : Node) : c.Grants n (legacyInjection c n).additions := by
  by_cases host : OpenHost c n
  · rw [legacyInjection_of_openHost host]
    exact .missing host.1.1 fun proper => Or.inr (Or.inl ⟨rfl, rfl, proper⟩)
  · rw [legacyInjection_of_not_openHost host]
    exact .nothing c n

end Context

-----------------------------------------------------------------------------------------
-- What a pass grants
-----------------------------------------------------------------------------------------

/-- What is added at an address is what the node that is met there gains as it was drawn. -/
theorem Descent.added_redraw_cases {σ : Type} {d : Descent σ} {c : Settings} (lawful : d.Lawful c)
    (s : σ) (root : Place) (r : Redraw) (b : Address)
    : d.added s (root.node.redraw r) b = []
      ∨ ∃ t n,
          d.meet s root.node b = some (t, n)
          ∧ root.Reaches ⟨root.address ++ b, n⟩
          ∧ d.added s (root.node.redraw r) b = d.gains t (n.redraw (r.under b)) := by
  rw [added_eq_meet, meet_redraw lawful]
  cases met : d.meet s root.node b with
  | none => exact Or.inl rfl
  | some found => exact Or.inr ⟨found.1, found.2, rfl, reaches_of_meet met root.address, rfl⟩

/-- Under the full policy a node is met with the component name of the root or with none. -/
theorem fullDescent_state {c : Context} {name t : String} {n m : Node} {a : Address}
    (met : (fullDescent c).meet name n a = some (t, m))
    : t = name ∨ t = "" := by
  refine Descent.meet_invariant (I := fun t => t = name ∨ t = "") ?_ ?_ ?_ (Or.inl rfl) met
  · rintro t n inside entered valid
    obtain rfl := Option.some.inj entered
    split
    · exact valid
    · exact Or.inr rfl
  · intro t n valid
    simp only [fullDescent]
    split
    · exact valid
    · exact Or.inr rfl
  · intro t n valid
    simp only [fullDescent]
    split
    · exact Or.inr rfl
    · exact valid

namespace Context

/-- The component of a context has a name, and the name is on the list of ignored components. -/
def Ignored (c : Context) : Prop :=
  c.component ≠ "" ∧ c.component ∈ c.settings.ignoredComponents

theorem pass_of_ignored {c : Context} (ignored : c.Ignored)
    : c.pass = ⟨Unit, Descent.still, (), Descent.still_lawful _⟩ :=
  if_pos (by simpa [Ignored] using ignored)

theorem pass_of_full {c : Context} (heard : ¬ c.Ignored) (policy : c.settings.policy = .full)
    : c.pass = ⟨String, fullDescent c, c.component, fullDescent_lawful c⟩ := by
  rw [pass, if_neg (by simpa [Ignored] using heard), policy]

theorem pass_of_legacy {c : Context} (heard : ¬ c.Ignored) (policy : c.settings.policy = .legacy)
    : c.pass = ⟨Unit, legacyDescent c, (), legacyDescent_lawful c⟩ := by
  rw [pass, if_neg (by simpa [Ignored] using heard), policy]

theorem added_pass_of_ignored {c : Context} (ignored : c.Ignored) (root : Node) (b : Address)
    : c.pass.added root b = [] := by
  rw [pass_of_ignored ignored, Pass.added, Descent.added_eq_meet]
  cases Descent.still.meet () root b <;> rfl

/-- What a pass adds to a tree in which attributes were given: nothing but to nodes of the root's
region, and to each what it can gain.
-/
theorem added_pass_cases (c : Context) (root : Place) (r : Redraw) (b : Address)
    : c.pass.added (root.node.redraw r) b = []
      ∨ ∃ n,
          root.Reaches ⟨root.address ++ b, n⟩
          ∧ c.Grants (n.redraw (r.under b)) (c.pass.added (root.node.redraw r) b) := by
  by_cases ignored : c.Ignored
  · exact Or.inl (added_pass_of_ignored ignored _ b)
  · cases policy : c.settings.policy with
    | full =>
        rw [pass_of_full ignored policy, Pass.added]
        rcases Descent.added_redraw_cases (fullDescent_lawful c) c.component root r b with
          nothing | ⟨t, n, met, reached, gained⟩
        · exact Or.inl nothing
        · refine Or.inr ⟨n, reached, ?_⟩
          rw [gained]
          rcases fullDescent_state met with rfl | rfl
          · exact grants_full c _
          · exact (grants_full (c.withComponent "") _).of_unnamed
    | legacy =>
        rw [pass_of_legacy ignored policy, Pass.added]
        rcases Descent.added_redraw_cases (legacyDescent_lawful c) () root r b with
          nothing | ⟨t, n, met, reached, gained⟩
        · exact Or.inl nothing
        · refine Or.inr ⟨n, reached, ?_⟩
          rw [gained]
          exact grants_legacy c _

end Context

-----------------------------------------------------------------------------------------
-- What annotation from a root of a program adds
-----------------------------------------------------------------------------------------

theorem Ast.Redraw.under_under (r : Redraw) (a b : Address)
    : (r.under a).under b = r.under (a ++ b) := by
  simp only [under, List.append_assoc]

namespace Ast.Program

variable {p : Program} {root : Place}

theorem get?_redraw_of_has (has : p.Has root) (r : Redraw)
    : (p.redraw r).get? root.address = some (root.node.redraw (r.under root.address)) := by
  rw [get?, toNode_redraw]
  exact Node.get?_redraw_of_get? r has

/-- What annotation from a root adds to a program in which attributes were given: nothing but to
nodes of the root's region, and to each what it can gain.
-/
theorem addedAt_cases (has : p.Has root) (c : Context) (r : Redraw) (b : Address)
    : (p.redraw r).addedAt c root.address b = []
      ∨ ∃ n,
          root.Reaches ⟨b, n⟩
          ∧ c.Grants (n.redraw (r.under b)) ((p.redraw r).addedAt c root.address b) := by
  rw [addedAt_of_get? (get?_redraw_of_has has r)]
  by_cases nothing
      : addedUnder (c.pass.added (root.node.redraw (r.under root.address))) root.address b = []
  · exact Or.inl nothing
  · obtain ⟨rest, rfl⟩ := exists_append_of_addedUnder nothing
    rw [addedUnder_append]
    have cases := c.added_pass_cases root (r.under root.address) rest
    rwa [Redraw.under_under] at cases

/-- What annotation from a root adds at an address depends only on what was given there. -/
theorem addedAt_congr (has : p.Has root) (c : Context)
    {given other : Address → List (String × String)} {b : Address} (same : given b = other b)
    : (p.redraw (.adding given)).addedAt c root.address b
      = (p.redraw (.adding other)).addedAt c root.address b := by
  rw [addedAt_of_get? (get?_redraw_of_has has _), addedAt_of_get? (get?_redraw_of_has has _)]
  by_cases inside : ∃ rest, b = root.address ++ rest
  · obtain ⟨rest, rfl⟩ := inside
    rw [addedUnder_append, addedUnder_append]
    exact Descent.added_congr c.pass.lawful c.pass.start root.node same
  · have outside (added : Address → List (String × String))
        : addedUnder added root.address b = [] := by
      by_contra something
      exact inside (exists_append_of_addedUnder something)
    rw [outside, outside]

end Ast.Program
end JsxProvenance
