import Mathlib.Data.List.Pairwise
import JsxProvenance.Cst.ToAst

/-! How the nodes of a concrete tree lie in the bytes of the source. Children lie within their
parents, in order and apart, and a tag has a byte of its own at either end, around its name,
attributes and spreads. Attributes stand only in tags. A grammar makes its trees so.
-/

namespace JsxProvenance.Cst

-----------------------------------------------------------------------------------------
-- Nodes
-----------------------------------------------------------------------------------------

mutual

/-- A node and all nodes below it. -/
def nodes : Cst → List Cst
  | n@(.node _ _ _ _ _ children) => n :: listNodes children

/-- The nodes of a list and all nodes below them. -/
def listNodes : List Cst → List Cst
  | [] => []
  | n :: rest => n.nodes ++ listNodes rest

end

theorem listNodes_eq (ns : List Cst) : listNodes ns = ns.flatMap nodes := by
  induction ns with
  | nil => rfl
  | cons n rest ih => rw [listNodes, ih, List.flatMap_cons]

theorem mem_nodes_iff {n m : Cst} : m ∈ n.nodes ↔ m = n ∨ ∃ c ∈ n.children, m ∈ c.nodes := by
  cases n
  rw [nodes, listNodes_eq, List.mem_cons, List.mem_flatMap]
  rfl

theorem mem_nodes_self (n : Cst) : n ∈ n.nodes :=
  mem_nodes_iff.mpr (Or.inl rfl)

theorem mem_nodes_of_child {n c m : Cst} (child : c ∈ n.children) (below : m ∈ c.nodes)
    : m ∈ n.nodes :=
  mem_nodes_iff.mpr (Or.inr ⟨c, child, below⟩)

theorem sizeOf_lt_of_child {n c : Cst} (child : c ∈ n.children) : sizeOf c < sizeOf n := by
  cases n with
  | node kind field named start stop children =>
      have smaller := List.sizeOf_lt_of_mem child
      simp only [node.sizeOf_spec, Cst.children] at *
      omega

/-- What holds of a node whenever it holds of all smaller ones holds of all nodes. -/
@[elab_as_elim]
theorem sizeInduction {motive : Cst → Prop}
    (step : ∀ n : Cst, (∀ m : Cst, sizeOf m < sizeOf n → motive m) → motive n) (n : Cst)
    : motive n := by
  induction hk : sizeOf n using Nat.strongRecOn generalizing n with
  | ind k ih => exact step n fun m smaller => ih (sizeOf m) (hk ▸ smaller) m rfl

-----------------------------------------------------------------------------------------
-- Conditions on all nodes
-----------------------------------------------------------------------------------------

section

variable (P : Bool → Cst → Prop)

mutual

/-- A condition holds of a node and of all nodes below it. Whether a node is the opening tag of an
element is said by its parent, and the condition is told.
-/
def Everywhere (opening : Bool) : Cst → Prop
  | n@(.node kind _ _ _ _ children) =>
      P opening n ∧ ListEverywhere (kind == "jsx_element") children

/-- A condition holds of all nodes of a list and below. The first that fills the field for it is
the opening tag, if the list belongs to an element.
-/
def ListEverywhere (element : Bool) : List Cst → Prop
  | [] => True
  | n :: rest =>
      n.Everywhere (element && n.field == some "open_tag")
      ∧ ListEverywhere (element && n.field != some "open_tag") rest

end

section

variable [∀ opening n, Decidable (P opening n)]

mutual

/-- A condition that can be checked can be checked everywhere. -/
def decideEverywhere (opening : Bool) : (n : Cst) → Decidable (n.Everywhere P opening)
  | .node kind _ _ _ _ children =>
      have := decideListEverywhere (kind == "jsx_element") children
      inferInstanceAs (Decidable (_ ∧ _))

/-- A condition that can be checked can be checked in a list. -/
def decideListEverywhere (element : Bool) : (ns : List Cst) → Decidable (ListEverywhere P element ns)
  | [] => isTrue trivial
  | n :: rest =>
      have := decideEverywhere (element && n.field == some "open_tag") n
      have := decideListEverywhere (element && n.field != some "open_tag") rest
      inferInstanceAs (Decidable (_ ∧ _))

end

end

instance (opening : Bool) (n : Cst) [∀ opening n, Decidable (P opening n)]
    : Decidable (n.Everywhere P opening) :=
  decideEverywhere P opening n

end

/-- A tag that makes an element: a self-closing one, or an opening tag that has a name. -/
def IsTag (opening : Bool) (n : Cst) : Prop :=
  n.kind = "jsx_self_closing_element" ∨ opening = true ∧ (n.field? "name").isSome = true

/-- How a node lies around its children. -/
structure Shaped (opening : Bool) (n : Cst) : Prop where
  range : n.start ≤ n.stop
  nested : ∀ c ∈ n.children, n.start ≤ c.start ∧ c.stop ≤ n.stop
  ordered : n.children.Pairwise fun c d => c.stop ≤ d.start
  opened
    : n.kind = "jsx_element"
      → ∀ tag ∈ n.field? "open_tag", tag.kind = "jsx_opening_element"
  named : n.IsTag opening → (n.field? "name").isSome = true
  margins
    : n.IsTag opening
      → ∀ c ∈ n.children,
          c.isStructural = true ∨ c.field = some "name"
          → n.start < c.start ∧ c.stop < n.stop

instance (opening : Bool) (n : Cst) : Decidable (n.IsTag opening) :=
  inferInstanceAs (Decidable (_ ∨ _))

instance (opening : Bool) (n : Cst) : Decidable (n.Shaped opening) :=
  decidable_of_iff
    (n.start ≤ n.stop
      ∧ (∀ c ∈ n.children, n.start ≤ c.start ∧ c.stop ≤ n.stop)
      ∧ (n.children.Pairwise fun c d => c.stop ≤ d.start)
      ∧ (n.kind = "jsx_element"
          → ∀ tag ∈ n.field? "open_tag", tag.kind = "jsx_opening_element")
      ∧ (n.IsTag opening → (n.field? "name").isSome = true)
      ∧ (n.IsTag opening
          → ∀ c ∈ n.children,
              c.isStructural = true ∨ c.field = some "name"
              → n.start < c.start ∧ c.stop < n.stop))
    ⟨fun ⟨a, b, c, d, e, f⟩ => ⟨a, b, c, d, e, f⟩, fun ⟨a, b, c, d, e, f⟩ => ⟨a, b, c, d, e, f⟩⟩

/-- All nodes of a tree lie well. -/
abbrev Laid (opening : Bool) (n : Cst) : Prop :=
  n.Everywhere Shaped opening

/-- A node that is no tag has no attributes. -/
def Bare (opening : Bool) (n : Cst) : Prop :=
  ¬ n.IsTag opening → ∀ c ∈ n.children, c.kind ≠ "jsx_attribute"

instance (opening : Bool) (n : Cst) : Decidable (n.Bare opening) :=
  inferInstanceAs (Decidable (_ → _))

/-- Attributes stand only in tags. -/
abbrev Confined (opening : Bool) (n : Cst) : Prop :=
  n.Everywhere Bare opening

/-- Whether the node is JSX with tags of its own. -/
def IsJsx (n : Cst) : Prop :=
  n.kind = "jsx_element" ∨ n.kind = "jsx_self_closing_element"

/-- The bodies of classes are no JSX. -/
def PlainBodies (n : Cst) : Prop :=
  ∀ m ∈ n.nodes,
    m.kind ∈ ["class", "class_declaration", "abstract_class_declaration"]
    → ∀ body ∈ m.field? "body", ¬ body.IsJsx

instance (n : Cst) : Decidable n.IsJsx :=
  inferInstanceAs (Decidable (_ ∨ _))

instance (n : Cst) : Decidable n.PlainBodies :=
  inferInstanceAs (Decidable (∀ _ ∈ _, _))

-----------------------------------------------------------------------------------------
-- The children of nodes that keep a condition
-----------------------------------------------------------------------------------------

section

variable {P : Bool → Cst → Prop} {opening : Bool} {n : Cst}

theorem Everywhere.here (all : n.Everywhere P opening) : P opening n := by
  cases n
  exact all.1

theorem ListEverywhere.member {element : Bool} {ns : List Cst} (all : ListEverywhere P element ns)
    {c : Cst} (member : c ∈ ns)
    : c.Everywhere P false
      ∨ element = true
        ∧ ns.find? (·.field == some "open_tag") = some c
        ∧ c.Everywhere P true := by
  induction ns generalizing element with
  | nil => cases member
  | cons n rest ih =>
      obtain ⟨first, others⟩ := all
      rcases List.mem_cons.mp member with rfl | later
      · cases element with
        | false => exact Or.inl first
        | true =>
            cases filled : c.field == some "open_tag" with
            | false =>
                rw [filled] at first
                exact Or.inl first
            | true =>
                rw [filled] at first
                exact Or.inr ⟨rfl, by simp [filled], first⟩
      · rcases ih others later with plain | ⟨role, found, opens⟩
        · exact Or.inl plain
        · obtain ⟨element, unfilled⟩ := Bool.and_eq_true_iff.mp role
          refine Or.inr ⟨element, ?_, opens⟩
          rwa [List.find?_cons_of_neg (by simpa using unfilled)]

theorem ListEverywhere.openTag {ns : List Cst} (all : ListEverywhere P true ns) {tag : Cst}
    (opens : ns.find? (·.field == some "open_tag") = some tag)
    : tag.Everywhere P true := by
  induction ns with
  | nil => cases opens
  | cons n rest ih =>
      obtain ⟨first, others⟩ := all
      cases filled : n.field == some "open_tag" with
      | true =>
          rw [List.find?_cons, filled] at opens
          rw [filled] at first
          exact Option.some.inj opens ▸ first
      | false =>
          rw [List.find?_cons_of_neg (by simpa using filled)] at opens
          rw [bne, filled] at others
          exact ih others opens

/-- A child keeps the condition on its own, or as the opening tag of an element. -/
theorem Everywhere.child_cases (all : n.Everywhere P opening) {c : Cst} (child : c ∈ n.children)
    : c.Everywhere P false
      ∨ n.kind = "jsx_element" ∧ n.field? "open_tag" = some c ∧ c.Everywhere P true := by
  cases n
  rcases all.2.member child with plain | ⟨element, opens⟩
  · exact Or.inl plain
  · exact Or.inr ⟨eq_of_beq element, opens⟩

/-- The opening tag of an element keeps the condition as one. -/
theorem Everywhere.openTag (all : n.Everywhere P opening) (element : n.kind = "jsx_element")
    {tag : Cst} (opens : n.field? "open_tag" = some tag)
    : tag.Everywhere P true := by
  cases n with
  | node kind field named start stop children =>
      have others := all.2
      rw [beq_iff_eq.mpr (show kind = "jsx_element" from element)] at others
      exact others.openTag opens

theorem Everywhere.weaken (weaker : P true n → P false n) (all : n.Everywhere P true)
    : n.Everywhere P false := by
  cases n
  exact ⟨weaker all.1, all.2⟩

/-- A node that lies well as an opening tag lies well. -/
theorem Shaped.weaken (shaped : n.Shaped true) : n.Shaped false := by
  have tag (isTag : n.IsTag false) : n.IsTag true := isTag.imp_right fun ⟨no, _⟩ => nomatch no
  exact { shaped with
    named := fun isTag => shaped.named (tag isTag)
    margins := fun isTag => shaped.margins (tag isTag) }

/-- Each child of a well laid node lies well. -/
theorem Laid.child (laid : n.Laid opening) {c : Cst} (child : c ∈ n.children) : c.Laid false := by
  rcases Everywhere.child_cases laid child with plain | ⟨_, _, opened⟩
  · exact plain
  · exact opened.weaken Shaped.weaken

/-- The nodes below a node lie within it, by induction on size. -/
theorem Laid.range (laid : n.Laid opening) {m : Cst} (below : m ∈ n.nodes)
    : n.start ≤ m.start ∧ m.start ≤ m.stop ∧ m.stop ≤ n.stop := by
  induction n using sizeInduction generalizing opening with
  | step n ih =>
      rcases mem_nodes_iff.mp below with rfl | ⟨c, child, inside⟩
      · exact ⟨Nat.le_refl _, laid.here.range, Nat.le_refl _⟩
      · have outer := laid.here.nested c child
        have inner := ih c (sizeOf_lt_of_child child) (Laid.child laid child) inside
        omega

end

end JsxProvenance.Cst
