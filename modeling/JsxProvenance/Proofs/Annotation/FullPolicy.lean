import Mathlib.Algebra.GroupWithZero.Nat
import JsxProvenance.Proofs.Annotation.Recipients

/-! The full policy node by node. Annotation from a root is described without a way down: each node
of the root's region is due attributes by what it carries and by the component name in scope, and
what the policy does is to give each node its dues.
-/

namespace JsxProvenance

open Ast

-----------------------------------------------------------------------------------------
-- The count of a descent, node by node
-----------------------------------------------------------------------------------------

/-- The number of attributes given in the region of a place. -/
def Ast.Place.givenBelow (added : Address → List (String × String)) (p : Place) : Nat :=
  (p.region.map fun place => (added place.address).length).sum

theorem Ast.Place.givenBelow_eq (added : Address → List (String × String)) (p : Place)
    : p.givenBelow added
      = (added p.address).length + (p.jsxChildren.map (givenBelow added)).sum := by
  rw [givenBelow, region_eq, List.map_cons, List.sum_cons, List.flatMap_def, List.map_flatten,
    List.sum_flatten, List.map_map, List.map_map]
  rfl

theorem Ast.Place.givenBelow_eq_zero {added : Address → List (String × String)} {p : Place}
    (nothing : ∀ way, added (p.address ++ way) = [])
    : p.givenBelow added = 0 := by
  apply List.sum_eq_zero_iff_forall_eq_nat.mpr
  intro number member
  obtain ⟨place, among, rfl⟩ := List.mem_map.mp member
  obtain ⟨way, placed, _⟩ := (mem_region_iff.mp among).exists_way
  rw [placed, nothing, List.length_nil]

/-- What the node of a region at an address is given, if each node of the region is given something.
There is nothing given outside of the region.
-/
def Ast.Place.givenAt (given : Place → List (String × String)) (root : Place) (a : Address)
    : List (String × String) :=
  (root.region.find? (·.address = a)).elim [] given

theorem Ast.Place.givenAt_of_reaches {given : Place → List (String × String)} {root place : Place}
    (reached : root.Reaches place)
    : root.givenAt given place.address = given place := by
  have found : (root.region.find? (·.address = place.address)).isSome = true :=
    List.find?_isSome.mpr ⟨place, mem_region_iff.mpr reached, by simp⟩
  obtain ⟨other, found⟩ := Option.isSome_iff_exists.mp found
  have same : other.address = place.address := by simpa using List.find?_some found
  obtain rfl : other = place :=
    (mem_region_iff.mp (List.mem_of_find?_eq_some found)).eq_of_address reached same
  rw [givenAt, found, Option.elim_some]

theorem Ast.Place.givenAt_of_unreached {given : Place → List (String × String)} {root : Place}
    {a : Address} (unreached : ∀ n, ¬ root.Reaches ⟨a, n⟩)
    : root.givenAt given a = [] := by
  have missing : root.region.find? (·.address = a) = none := by
    rw [List.find?_eq_none]
    rintro ⟨b, n⟩ member same
    obtain rfl : b = a := by simpa using same
    exact unreached n (mem_region_iff.mp member)
  rw [givenAt, missing, Option.elim_none]

namespace Descent

variable {σ : Type} {d : Descent σ} {c : Settings}

/-- A list counts what each node that is met in it counts, by induction over the list. -/
theorem listCount_eq_sum (total : Place → Nat) (s : σ) (nodes : List Node)
    (place : Nat → Node → Place)
    (each : ∀ i below part,
      d.reach s nodes i = some (below, part) → d.count below part = total (place i part))
    : d.listCount s nodes = ((nodes.mapIdx place).map total).sum := by
  induction nodes generalizing s place with
  | nil => rfl
  | cons n later ih =>
      rw [listCount, List.mapIdx_cons, List.map_cons, List.sum_cons, each 0 _ _ rfl]
      congr 1
      exact ih _ _ fun i => each (i + 1)

/-- What is counted below a node is what is given below it, provided that this holds of each
sibling on its own.
-/
theorem elim_listCount_eq_sum {added : Address → List (String × String)} {s : σ} {n : Node}
    {a : Address} (same : ∀ way, added (a ++ way) = d.added s n way) {siblings : List Node}
    (step : Nat → Step) (leads : ∀ i, n.jsxStep? (step i) = some (siblings, i))
    (each : ∀ (i : Nat) (below : σ) (part : Node),
      siblings[i]? = some part
      → (∀ way, added (a ++ [step i] ++ way) = d.added below part way)
      → d.count below part = (Place.mk (a ++ [step i]) part).givenBelow added)
    : ((d.enter s n).elim 0 fun inside => d.listCount inside siblings)
      = ((siblings.mapIdx fun i part => Place.mk (a ++ [step i]) part).map
          (Place.givenBelow added)).sum := by
  have follow_step (i : Nat)
      : d.follow s n (step i) = (d.enter s n).bind fun inside => d.reach inside siblings i := by
    rw [follow, leads i]
    rfl
  have below_step (i : Nat) (way : Address)
      : added (a ++ [step i] ++ way) = d.added s n (step i :: way) := by
    rw [List.append_assoc, same]
    rfl
  cases entered : d.enter s n with
  | none =>
      symm
      apply List.sum_eq_zero_iff_forall_eq_nat.mpr
      intro number member
      obtain ⟨place, among, rfl⟩ := List.mem_map.mp member
      obtain ⟨i, inside, rfl⟩ := List.mem_mapIdx.mp among
      apply Place.givenBelow_eq_zero
      intro way
      rw [below_step, Descent.added, follow_step, entered]
      rfl
  | some inside =>
      refine listCount_eq_sum _ inside siblings _ fun i below part met => ?_
      refine each i below part (getElem?_of_reach met) fun way => ?_
      rw [below_step, Descent.added, follow_step, entered, Option.bind_some, met]

/-- A descent counts what it gives in the region of the root, by induction on the parts. -/
theorem count_eq_givenBelow (lawful : d.Lawful c) {added : Address → List (String × String)}
    (s : σ) (n : Node) (a : Address) (same : ∀ way, added (a ++ way) = d.added s n way)
    : d.count s n = (Place.mk a n).givenBelow added := by
  induction n using Node.partsInduction generalizing s a with
  | step n ih =>
      have here : added a = d.gains s n :=
        (congrArg added (List.append_nil a).symm).trans (same [])
      rw [Place.givenBelow_eq, here]
      cases n with
      | element p name attrs children sc off =>
          rw [count]
          congr 1
          refine elim_listCount_eq_sum same .child (fun _ => rfl) ?_
          intro i below part found given
          exact ih (.child i) part (Node.mem_slots_iff.mpr found) below _ given
      | group p form parts =>
          cases form with
          | jsxFragment =>
              rw [count, lawful.elements s _ rfl, List.length_nil, Nat.zero_add]
              refine elim_listCount_eq_sum same .part (fun _ => rfl) ?_
              intro i below part found given
              exact ih (.part i) part (Node.mem_slots_iff.mpr found) below _ given
          | _ =>
              rw [count_of_not_jsx s rfl, lawful.elements s _ rfl]
              rfl
      | _ =>
          rw [count_of_not_jsx s rfl, lawful.elements s _ rfl]
          rfl

theorem exists_reach {s : σ} {nodes : List Node} {i : Nat} {part : Node}
    (found : nodes[i]? = some part)
    : ∃ below, d.reach s nodes i = some (below, part) := by
  induction nodes generalizing s i with
  | nil => cases found
  | cons n later ih =>
      cases i with
      | zero =>
          obtain rfl := Option.some.inj found
          exact ⟨_, rfl⟩
      | succ i => exact ih found

/-- Where a descent does not stop, each child of JSX is met one step below. -/
theorem exists_follow {s inside : σ} {p child : Place} (entered : d.enter s p.node = some inside)
    (member : child ∈ p.jsxChildren)
    : ∃ step below,
        child.address = p.address ++ [step]
        ∧ d.follow s p.node step = some (below, child.node) := by
  obtain ⟨a, n⟩ := p
  cases n with
  | element p name attrs children sc off =>
      obtain ⟨i, found, placed⟩ := Place.mem_mapIdx_place.mp member
      obtain ⟨below, reached⟩ := exists_reach (d := d) (s := inside) found
      exact ⟨.child i, below, placed, by rw [follow, entered]; exact reached⟩
  | group p form parts =>
      cases form with
      | jsxFragment =>
          obtain ⟨i, found, placed⟩ := Place.mem_mapIdx_place.mp member
          obtain ⟨below, reached⟩ := exists_reach (d := d) (s := inside) found
          exact ⟨.part i, below, placed, by rw [follow, entered]; exact reached⟩
      | _ => exact absurd member List.not_mem_nil
  | _ => exact absurd member List.not_mem_nil

/-- A place of the region is met if the descent stops nowhere above it, by induction on the size of
the root.
-/
theorem exists_meet {root place : Place} (reached : root.Reaches place)
    (onward : ∀ above, root.Reaches above → above.IsAbove place →
      ∀ s, ∃ inside, d.enter s above.node = some inside)
    (s : σ)
    : ∃ way t,
        place.address = root.address ++ way ∧ d.meet s root.node way = some (t, place.node) := by
  induction hk : root.node.size using Nat.strongRecOn generalizing s root with
  | ind k ih =>
      rcases Place.reaches_iff.mp reached with rfl | ⟨child, member, below⟩
      · exact ⟨[], s, (List.append_nil _).symm, rfl⟩
      · obtain ⟨inside, entered⟩ := onward root (.refl root) (below.isAbove member) s
        obtain ⟨step, t, placed, followed⟩ := exists_follow entered member
        have later (above : Place) (reached : child.Reaches above) :=
          onward above (((Place.Reaches.refl root).child member).trans reached)
        obtain ⟨way, u, found, met⟩ :=
          ih child.node.size (hk ▸ Place.size_lt_of_mem_jsxChildren member) below later t rfl
        refine ⟨step :: way, u, ?_, ?_⟩
        · rw [found, placed, List.append_assoc]
          rfl
        · rw [meet, followed]
          exact met

/-- What a descent adds is known from what it gives each node that it meets, if there is nothing for
the nodes of the region that it does not meet.
-/
theorem added_eq_givenAt {given : Place → List (String × String)} {s : σ} {root : Node}
    (here
      : ∀ (place : Place) (t : σ),
          Place.Reaches ⟨[], root⟩ place
          → d.meet s root place.address = some (t, place.node)
          → d.gains t place.node = given place)
    (missing
      : ∀ place,
          Place.Reaches ⟨[], root⟩ place
          → d.meet s root place.address = none
          → given place = [])
    : d.added s root = Place.givenAt given ⟨[], root⟩ := by
  funext a
  rw [added_eq_meet]
  cases met : d.meet s root a with
  | none =>
      symm
      by_cases reached : ∃ n, Place.Reaches ⟨[], root⟩ ⟨a, n⟩
      · obtain ⟨n, reached⟩ := reached
        exact (Place.givenAt_of_reaches reached).trans (missing ⟨a, n⟩ reached met)
      · exact Place.givenAt_of_unreached (not_exists.mp reached)
  | some found =>
      obtain ⟨t, n⟩ := found
      have reached : Place.Reaches ⟨[], root⟩ ⟨a, n⟩ := reaches_of_meet met []
      exact (here ⟨a, n⟩ t reached met).trans (Place.givenAt_of_reaches reached).symm

end Descent

-----------------------------------------------------------------------------------------
-- What each node is due
-----------------------------------------------------------------------------------------

namespace Context

variable {c : Context} {root place : Place}

/-- The component name in scope at a place of a region. The root has it, and if fragments are
annotated the first element child of a root that is a fragment; all other places have none.
-/
def scope (c : Context) (root place : Place) : String :=
  if place.address = root.address
    ∨ (recipient? c.settings c.aliases root).map (·.address) = some place.address
  then c.component
  else ""

/-- The attributes that a place of a region is due: its name, the component in scope and the source
file, in this order, each unless it is present.
-/
def dues (c : Context) (root place : Place) : List (String × String) :=
  let n := place.node
  let names := c.settings.attributeNames
  let scope := c.scope root place
  let file := c.settings.sourceFileName.getD ""
  let listed := n.elementName ∈ c.settings.ignoredElements
  if classify (some c.aliases) n = .element ∧ n.elementName ∉ c.settings.ignoredComponents then
    (if ¬ n.hasAttribute names.element ∧ ¬ listed then [(names.element, n.elementName)] else [])
    ++ (if scope ≠ "" ∧ ¬ n.hasAttribute names.component then [(names.component, scope)] else [])
    ++ (if file ≠ "" ∧ ¬ n.hasAttribute names.sourceFile
          ∧ (scope ≠ "" ∨ n.hasAttribute names.element ∨ ¬ listed)
        then [(names.sourceFile, file)]
        else [])
  else []

/-- What the node of a region at an address is due. There is nothing due outside of the region. -/
def duesAt (c : Context) (root : Place) (a : Address) : List (String × String) :=
  root.givenAt (c.dues root) a

theorem ownAddition_eq (c : Context) (n : Node)
    : c.ownAddition n
      = if ¬ n.hasAttribute c.settings.attributeNames.element
          ∧ n.elementName ∉ c.settings.ignoredElements
        then [(c.settings.attributeNames.element, n.elementName)]
        else [] := by
  rw [ownAddition, ← ite_not]
  exact if_congr (by simp) rfl rfl

theorem componentAddition_eq (c : Context) (n : Node)
    : c.componentAddition n
      = if c.component ≠ "" ∧ ¬ n.hasAttribute c.settings.attributeNames.component
        then [(c.settings.attributeNames.component, c.component)]
        else [] :=
  if_congr (by simp) rfl rfl

theorem fileAddition_eq (c : Context) (n : Node)
    : c.fileAddition n
      = if c.settings.sourceFileName.getD "" ≠ ""
          ∧ ¬ n.hasAttribute c.settings.attributeNames.sourceFile
          ∧ (c.component ≠ ""
            ∨ n.hasAttribute c.settings.attributeNames.element
            ∨ n.elementName ∉ c.settings.ignoredElements)
        then [(c.settings.attributeNames.sourceFile, c.settings.sourceFileName.getD "")]
        else [] := by
  rw [fileAddition, Node.missingAttribute, ← ite_and]
  exact if_congr (by simp [and_comm, and_left_comm]) rfl rfl

/-- An element that is met has the name in scope as its state. -/
theorem scope_of_meet {way : Address} {t : String} (placed : place.address = root.address ++ way)
    (element : classify (some c.aliases) place.node = .element)
    (met : (fullDescent c).meet c.component root.node way = some (t, place.node))
    : c.scope root place = t := by
  by_cases proper : c.component = ""
  · have unnamed : t = "" := (fullDescent_state met).elim (·.trans proper) id
    rw [scope, proper, ite_self, unnamed]
  · unfold scope
    split
    · next named =>
        rcases named with top | handed
        · obtain rfl : way = [] := List.append_right_eq_self.mp (placed.symm.trans top)
          exact congrArg Prod.fst (Option.some.inj met)
        · obtain ⟨found, handed, same⟩ := Option.map_eq_some_iff.mp handed
          obtain ⟨way', placed', _, met'⟩ := (fullDescent.meet_named_iff proper).mp handed
          obtain rfl : way' = way :=
            List.append_cancel_left (placed'.symm.trans (same.trans placed))
          exact congrArg Prod.fst (Option.some.inj (met'.symm.trans met))
    · next unnamed =>
        rcases fullDescent_state met with rfl | rfl
        · have handed := (fullDescent.meet_named_iff proper).mpr ⟨way, placed, element, met⟩
          exact absurd (Or.inr (congrArg (Option.map _) handed)) unnamed
        · rfl

/-- A node that is met gains its dues, by cases on the attributes that it carries. -/
theorem gains_of_meet (heard : ¬ c.Ignored) {way : Address} {t : String}
    (placed : place.address = root.address ++ way)
    (met : (fullDescent c).meet c.component root.node way = some (t, place.node))
    : (fullDescent c).gains t place.node = c.dues root place := by
  change (fullInjection (c.withComponent t) place.node).additions = c.dues root place
  by_cases due
      : classify (some c.aliases) place.node = .element
        ∧ place.node.elementName ∉ c.settings.ignoredComponents
  · have unignored : t ≠ "" → t ∉ c.settings.ignoredComponents := by
      intro proper listed
      obtain rfl := (fullDescent_state met).resolve_right proper
      exact heard ⟨proper, listed⟩
    have isOpen : Open (c.withComponent t) place.node :=
      ⟨due.1, isIgnored_eq_false_iff.mpr ⟨due.2, unignored⟩⟩
    rw [fullInjection_of_open isOpen, ownAddition_eq, componentAddition_eq, fileAddition_eq, dues,
      scope_of_meet placed due.1 met, if_pos due]
    rfl
  · have closed : ¬ Open (c.withComponent t) place.node :=
      fun isOpen => due ⟨isOpen.1, (isIgnored_eq_false_iff.mp isOpen.2).1⟩
    rw [fullInjection_of_not_open closed, dues, if_neg due]

theorem duesAt_of_reaches (reached : root.Reaches place)
    : c.duesAt root place.address = c.dues root place :=
  Place.givenAt_of_reaches reached

/-- The full policy adds to each node what it is due. -/
theorem added_eq_duesAt (heard : ¬ c.Ignored) (root : Node)
    : (fullDescent c).added c.component root = c.duesAt ⟨[], root⟩ := by
  apply Descent.added_eq_givenAt
  · intro place t _ met
    have placed : place.address = (Place.mk [] root).address ++ place.address := rfl
    exact gains_of_meet heard placed met
  · intro place reached missed
    have onward (n : Node) (s : String) : ∃ inside, (fullDescent c).enter s n = some inside :=
      ⟨_, rfl⟩
    obtain ⟨way, t, placed, met⟩ :=
      Descent.exists_meet reached (fun above _ _ => onward above.node) c.component
    obtain rfl : place.address = way := placed
    rw [missed] at met
    cases met

end Context

theorem classify_of_isJsx (aliases? : Option Aliases) {n : Node} (jsx : n.isJsx = true)
    : classify aliases? n = .element ∨ classify aliases? n = .fragment := by
  unfold classify
  split
  · exact Or.inr rfl
  · next plain =>
      cases n with
      | element => exact Or.inl rfl
      | group p form parts =>
          cases form with
          | jsxFragment => exact absurd rfl plain
          | _ => cases jsx
      | _ => cases jsx

/-- Annotation from a root under the full policy. It leaves the root alone if it is neither an
element nor a fragment, or if the component is ignored. Else it gives each node of the root's
region its dues, changes nothing else, and counts them.
-/
theorem annotateRoot_full {c : Context} (full : c.settings.policy = .full) (root : Node)
    : (classify (some c.aliases) root ≠ .element ∧ classify (some c.aliases) root ≠ .fragment
          ∨ c.Ignored
        → annotateRoot c root = (root, 0))
      ∧ (classify (some c.aliases) root = .element ∨ classify (some c.aliases) root = .fragment
        → ¬ c.Ignored
        → annotateRoot c root
          = (root.redraw (.adding (c.duesAt ⟨[], root⟩)),
              ((Place.region ⟨[], root⟩).map fun place =>
                (c.dues ⟨[], root⟩ place).length).sum)) := by
  constructor
  · rintro (⟨element, fragment⟩ | ⟨proper, listed⟩)
    · have plain : root.isJsx = false := by
        refine Bool.eq_false_iff.mpr fun jsx => ?_
        rcases classify_of_isJsx (some c.aliases) jsx with kind | kind
        · exact element kind
        · exact fragment kind
      simp [annotateRoot, plain]
    · simp [annotateRoot, proper, listed]
  · intro _ heard
    have added := Context.added_eq_duesAt heard root
    have counted := Descent.count_eq_givenBelow (fullDescent_lawful c) c.component root []
      fun way => congrFun added.symm way
    rw [annotateRoot_eq, Context.pass_of_full heard full, Pass.added, Pass.count, added, counted]
    refine congrArg (Prod.mk _) (congrArg List.sum (List.map_congr_left fun place member => ?_))
    rw [Context.duesAt_of_reaches (Place.mem_region_iff.mp member)]

/-- A fragment with a text, a line break, a fragment inside, and a row. -/
def listing : Node :=
  .group {} .jsxFragment [
    .leaf {} (.jsxText "Rows:"),
    .element {} (.leaf {} (.jsxIdentifier "br")) [] [] true (some 14),
    .group {} .jsxFragment [
      .element {} (.leaf {} (.jsxIdentifier "b")) [
        .leaf {} (.jsxAttribute "data-sentry-element" (some "bold") false)
      ] [] true (some 50)
    ],
    .element {} (.leaf {} (.jsxIdentifier "Row")) [] [
      .element {} (.leaf {} (.jsxIdentifier "i")) [] [] true (some 64)
    ] false (some 60)
  ]

/-- A context in which a component lists rows, and rows are ignored. -/
def listingContext : Context where
  settings := {
    annotateFragments := true
    sourceFileName := some "Listing.tsx"
    ignoredComponents := ["Row"]
  }
  component := "Listing"

/-- The line break has the component name in scope, the bold text needs the file only, and the row
is ignored, but not what stands in it. A component named like the row is left alone.
-/
theorem annotateRoot_full_listing
    : annotateRoot listingContext listing
        = (listing.redraw (.adding (listingContext.duesAt ⟨[], listing⟩)), 5)
      ∧ (Place.region ⟨[], listing⟩).map (listingContext.dues ⟨[], listing⟩)
        = [
          [],
          [],
          [("data-sentry-component", "Listing"), ("data-sentry-source-file", "Listing.tsx")],
          [],
          [("data-sentry-source-file", "Listing.tsx")],
          [],
          [("data-sentry-element", "i"), ("data-sentry-source-file", "Listing.tsx")]
        ]
      ∧ annotateRoot (listingContext.withComponent "Row") listing = (listing, 0) := by
  have dues
      : (Place.region ⟨[], listing⟩).map (listingContext.dues ⟨[], listing⟩)
        = [
          [],
          [],
          [("data-sentry-component", "Listing"), ("data-sentry-source-file", "Listing.tsx")],
          [],
          [("data-sentry-source-file", "Listing.tsx")],
          [],
          [("data-sentry-element", "i"), ("data-sentry-source-file", "Listing.tsx")]
        ] := by
    decide +kernel
  have heard : ¬ listingContext.Ignored := fun ignored => by
    simp [Context.Ignored, listingContext] at ignored
  have annotated := (annotateRoot_full (c := listingContext) rfl listing).2 (Or.inr rfl) heard
  refine ⟨?_, dues, ?_⟩
  · rw [annotated]
    exact congrArg (Prod.mk _) (by decide +kernel)
  · refine (annotateRoot_full (c := listingContext.withComponent "Row") rfl listing).1 (Or.inr ?_)
    exact ⟨by decide, by decide⟩

end JsxProvenance
