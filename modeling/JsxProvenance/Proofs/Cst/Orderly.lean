import JsxProvenance.Proofs.Cst.Layout
import JsxProvenance.Proofs.Text.Positions
import JsxProvenance.Proofs.Tree.Trail

/-! Syntax in the order of the source. Nodes are in order between two offsets if their positions
never decrease from one to the next, and those of elements and fragments increase. Lists between
offsets that follow each other are put together, as the ranges of the children of a concrete node do.
-/

namespace JsxProvenance

open Ast

-----------------------------------------------------------------------------------------
-- Concrete nodes in order
-----------------------------------------------------------------------------------------

namespace Cst

/-- Whether the node is the opening tag of an element or a self-closing one. -/
def Begins (n : Cst) : Prop :=
  n.kind = "jsx_opening_element" ∨ n.kind = "jsx_self_closing_element"

/-- The nodes in some fields stand in the order of the fields. -/
def FieldsInOrder (n : Cst) (names : List String) : Prop :=
  (names.filterMap n.field?).Pairwise fun c d => c.stop ≤ d.start

/-- How a node stands around its children, and they to each other. -/
structure Orderly (n : Cst) : Prop where
  range : n.start ≤ n.stop
  nested : ∀ c ∈ n.children, n.start ≤ c.start ∧ c.stop ≤ n.stop
  ordered : n.children.Pairwise fun c d => c.stop ≤ d.start
  declarator : n.kind = "variable_declarator" → n.FieldsInOrder ["name", "value"]
  conditional
    : n.kind = "ternary_expression"
      → n.FieldsInOrder ["condition", "consequence", "alternative"]
  /-- A name comes before the attributes, if it is none itself. -/
  tag
    : n.Begins
      → ∀ name ∈ n.field? "name",
          isTagAttribute name = false
          → ∀ c ∈ n.parts, isTagAttribute c = true → name.stop ≤ c.start
  opened
    : n.kind = "jsx_element"
      → ∃ tag ∈ n.children.head?,
          tag.field = some "open_tag"
          ∧ tag.kind = "jsx_opening_element"
          ∧ tag.start = n.start
  begins
    : n.Begins
      → n.start < n.stop ∧ ∀ c ∈ n.children, ¬ (c.start ≤ n.start ∧ n.start < c.stop)

instance (n : Cst) : Decidable n.Begins :=
  inferInstanceAs (Decidable (_ ∨ _))

instance (n : Cst) (names : List String) : Decidable (n.FieldsInOrder names) :=
  inferInstanceAs (Decidable (List.Pairwise _ _))

instance (n : Cst) : Decidable n.Orderly :=
  decidable_of_iff
    (n.start ≤ n.stop
      ∧ (∀ c ∈ n.children, n.start ≤ c.start ∧ c.stop ≤ n.stop)
      ∧ (n.children.Pairwise fun c d => c.stop ≤ d.start)
      ∧ (n.kind = "variable_declarator" → n.FieldsInOrder ["name", "value"])
      ∧ (n.kind = "ternary_expression"
          → n.FieldsInOrder ["condition", "consequence", "alternative"])
      ∧ (n.Begins
          → ∀ name ∈ n.field? "name",
              isTagAttribute name = false
              → ∀ c ∈ n.parts, isTagAttribute c = true → name.stop ≤ c.start)
      ∧ (n.kind = "jsx_element"
          → ∃ tag ∈ n.children.head?,
              tag.field = some "open_tag"
              ∧ tag.kind = "jsx_opening_element"
              ∧ tag.start = n.start)
      ∧ (n.Begins
          → n.start < n.stop ∧ ∀ c ∈ n.children, ¬ (c.start ≤ n.start ∧ n.start < c.stop)))
    ⟨fun ⟨a, b, c, d, e, f, g, h⟩ => ⟨a, b, c, d, e, f, g, h⟩,
      fun ⟨a, b, c, d, e, f, g, h⟩ => ⟨a, b, c, d, e, f, g, h⟩⟩

/-- All nodes of a tree are in order. -/
def InSourceOrder (n : Cst) : Prop :=
  ∀ m ∈ n.nodes, m.Orderly

instance (n : Cst) : Decidable n.InSourceOrder :=
  inferInstanceAs (Decidable (∀ _ ∈ _, _))

variable {n c : Cst}

theorem InSourceOrder.here (ordered : n.InSourceOrder) : n.Orderly :=
  ordered n (mem_nodes_self n)

theorem InSourceOrder.child (ordered : n.InSourceOrder) (child : c ∈ n.children)
    : c.InSourceOrder :=
  fun m below => ordered m (mem_nodes_of_child child below)

end Cst

-----------------------------------------------------------------------------------------
-- Syntax in order
-----------------------------------------------------------------------------------------

/-- The position of a node, as a pair of numbers. -/
def Ast.Node.key (n : Node) : ℕ ×ₗ ℕ :=
  n.position.key

/-- A node may stand before another: not at a greater position, and at a smaller one if both are
elements or fragments.
-/
def Ast.Node.Precedes (m n : Node) : Prop :=
  m.key ≤ n.key ∧ (m.isJsx = true → n.isJsx = true → m.key < n.key)

/-- Nodes between two offsets, one after the other. An element or a fragment has a byte of its own, so
it stands before the end.
-/
structure InOrder (source : List UInt8) (start stop : Nat) (nodes : List Node) : Prop where
  lower : ∀ m ∈ nodes, positionKey source start ≤ m.key
  upper : ∀ m ∈ nodes, m.key ≤ positionKey source stop
  below : ∀ m ∈ nodes, m.isJsx = true → m.key < positionKey source stop
  sorted : nodes.Pairwise Node.Precedes

/-- The elements and fragments among some nodes stand behind an offset. -/
def JsxBehind (source : List UInt8) (offset : Nat) (nodes : List Node) : Prop :=
  ∀ m ∈ nodes, m.isJsx = true → positionKey source offset < m.key

namespace InOrder

variable {source : List UInt8} {start middle stop : Nat} {n : Node} {first second : List Node}

theorem nil : InOrder source start stop [] :=
  ⟨nofun, nofun, nofun, .nil⟩

theorem widen {start' stop' : Nat} (inOrder : InOrder source start stop first)
    (left : start' ≤ start) (right : stop ≤ stop')
    : InOrder source start' stop' first where
  lower m member := le_trans (positionKey_mono source left) (inOrder.lower m member)
  upper m member := le_trans (inOrder.upper m member) (positionKey_mono source right)
  below m member jsx := lt_of_lt_of_le (inOrder.below m member jsx) (positionKey_mono source right)
  sorted := inOrder.sorted

/-- Nodes up to an offset stand before nodes from it on. -/
theorem append (left : InOrder source start middle first)
    (right : InOrder source middle stop second) (le : start ≤ middle) (le' : middle ≤ stop)
    : InOrder source start stop (first ++ second) where
  lower := List.forall_mem_append.mpr
    ⟨left.lower, fun m member => le_trans (positionKey_mono source le) (right.lower m member)⟩
  upper := List.forall_mem_append.mpr
    ⟨fun m member => le_trans (left.upper m member) (positionKey_mono source le'), right.upper⟩
  below := List.forall_mem_append.mpr
    ⟨fun m member jsx =>
      lt_of_lt_of_le (left.below m member jsx) (positionKey_mono source le'), right.below⟩
  sorted := by
    rw [List.pairwise_append]
    refine ⟨left.sorted, right.sorted, fun m before n after => ⟨?_, fun jsx _ => ?_⟩⟩
    · exact le_trans (left.upper m before) (right.lower n after)
    · exact lt_of_lt_of_le (left.below m before jsx) (right.lower n after)

/-- A node that is no JSX may stand where the nodes behind it start. -/
theorem cons (inOrder : InOrder source start stop first) (le : start ≤ stop)
    (own : n.key = positionKey source start) (plain : n.isJsx = false)
    : InOrder source start stop (n :: first) where
  lower := List.forall_mem_cons.mpr ⟨le_of_eq own.symm, inOrder.lower⟩
  upper := List.forall_mem_cons.mpr ⟨own ▸ positionKey_mono source le, inOrder.upper⟩
  below := List.forall_mem_cons.mpr ⟨by simp [plain], inOrder.below⟩
  sorted := by
    refine List.pairwise_cons.mpr ⟨fun m after => ⟨?_, by simp [plain]⟩, inOrder.sorted⟩
    exact own ▸ inOrder.lower m after

/-- An element or a fragment may stand where the nodes behind it start, if the JSX among them starts
behind it.
-/
theorem cons_jsx (inOrder : InOrder source start stop first) (less : start < stop)
    (inside : start < source.length) (own : n.key = positionKey source start)
    (behind : JsxBehind source start first)
    : InOrder source start stop (n :: first) where
  lower := List.forall_mem_cons.mpr ⟨le_of_eq own.symm, inOrder.lower⟩
  upper := List.forall_mem_cons.mpr
    ⟨own ▸ positionKey_mono source (Nat.le_of_lt less), inOrder.upper⟩
  below := List.forall_mem_cons.mpr ⟨fun _ => own ▸ positionKey_lt less inside, inOrder.below⟩
  sorted := by
    refine List.pairwise_cons.mpr ⟨fun m after => ⟨?_, fun _ jsx => ?_⟩, inOrder.sorted⟩
    · exact own ▸ inOrder.lower m after
    · exact own ▸ behind m after jsx

/-- Nodes in the ranges of concrete nodes that follow each other are in order, by induction over the
concrete nodes.
-/
theorem gather {chosen : List Cst} {nodes : Cst → List Node} (le : start ≤ stop)
    (within : ∀ c ∈ chosen, start ≤ c.start ∧ c.start ≤ c.stop ∧ c.stop ≤ stop)
    (apart : chosen.Pairwise fun c d => c.stop ≤ d.start)
    (each : ∀ c ∈ chosen, InOrder source c.start c.stop (nodes c))
    : InOrder source start stop (chosen.flatMap nodes) := by
  induction chosen generalizing start with
  | nil => exact nil
  | cons c rest ih =>
      obtain ⟨own, others⟩ := List.forall_mem_cons.mp within
      obtain ⟨before, apart⟩ := List.pairwise_cons.mp apart
      obtain ⟨head, tail⟩ := List.forall_mem_cons.mp each
      have behind : InOrder source c.stop stop (rest.flatMap nodes) := by
        refine ih own.2.2 (fun d member => ?_) apart tail
        exact ⟨before d member, (others d member).2⟩
      rw [List.flatMap_cons]
      refine append (head.widen own.1 le_rfl) behind ?_ own.2.2
      exact le_trans own.1 own.2.1

end InOrder

namespace JsxBehind

variable {source : List UInt8} {offset : Nat} {first second : List Node}

theorem append (left : JsxBehind source offset first) (right : JsxBehind source offset second)
    : JsxBehind source offset (first ++ second) :=
  List.forall_mem_append.mpr ⟨left, right⟩

theorem of_plain (plain : ∀ m ∈ first, m.isJsx = false) : JsxBehind source offset first := by
  intro m member jsx
  rw [plain m member] at jsx
  cases jsx

theorem flatMap {α : Type} {chosen : List α} {nodes : α → List Node}
    (each : ∀ c ∈ chosen, JsxBehind source offset (nodes c))
    : JsxBehind source offset (chosen.flatMap nodes) := by
  intro m member
  obtain ⟨c, found, inside⟩ := List.mem_flatMap.mp member
  exact each c found m inside

/-- Nodes that start behind an offset of the text stand behind it. -/
theorem of_start {start stop : Nat} (inOrder : InOrder source start stop first)
    (less : offset < start) (inside : offset < source.length)
    : JsxBehind source offset first :=
  fun m member _ => lt_of_lt_of_le (positionKey_lt less inside) (inOrder.lower m member)

/-- In a range that does not cover a byte, the JSX stands behind the byte, unless the range ends before
it.
-/
theorem of_uncovered {start stop : Nat} (inOrder : InOrder source start stop first)
    (le : offset ≤ start) (inside : offset < source.length)
    (uncovered : ¬ (start ≤ offset ∧ offset < stop))
    : JsxBehind source offset first := by
  rcases Nat.lt_or_eq_of_le le with less | rfl
  · exact of_start inOrder less inside
  · intro m member jsx
    -- the range is empty, and JSX needs a byte
    have ended : stop ≤ offset := Nat.not_lt.mp fun less => uncovered ⟨le_rfl, less⟩
    have lower := inOrder.lower m member
    have upper := lt_of_lt_of_le (inOrder.below m member jsx) (positionKey_mono source ended)
    exact absurd (lt_of_le_of_lt lower upper) (lt_irrefl _)

end JsxBehind
end JsxProvenance
