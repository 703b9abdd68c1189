import JsxProvenance.Proofs.Cst.Conversion
import JsxProvenance.Proofs.Cst.Orderly

/-! The syntax of a concrete tree keeps the order of the source. The readers take the children of a
node in their order, or the nodes of some fields in the order of the fields, and each at most once, so
the syntax of a node lies in the range of the node and in order.
-/

namespace JsxProvenance.Cst

open Ast

variable {source : List UInt8} {n : Cst}

/-- A node in a text whose tree is in order. -/
structure Readable (source : List UInt8) (n : Cst) : Prop where
  ordered : n.InSourceOrder
  inside : n.stop ≤ source.length

theorem Readable.child (readable : n.Readable source) {c : Cst} (child : c ∈ n.children)
    : c.Readable source :=
  ⟨readable.ordered.child child,
    Nat.le_trans (readable.ordered.here.nested c child).2 readable.inside⟩

/-- Nodes in the ranges of some children that follow each other are in order. -/
theorem InSourceOrder.gather (ordered : n.InSourceOrder) {chosen : List Cst}
    {nodes : Cst → List Node} (among : ∀ c ∈ chosen, c ∈ n.children)
    (apart : chosen.Pairwise fun c d => c.stop ≤ d.start)
    (each : ∀ c ∈ chosen, InOrder source c.start c.stop (nodes c))
    : InOrder source n.start n.stop (chosen.flatMap nodes) := by
  refine .gather ordered.here.range (fun c member => ?_) apart each
  have outer := ordered.here.nested c (among c member)
  exact ⟨outer.1, (ordered.child (among c member)).here.range, outer.2⟩

/-- Nodes in the range of a child are in order in the range of the node. -/
theorem InSourceOrder.widen (ordered : n.InSourceOrder) {c : Cst} (child : c ∈ n.children)
    {nodes : List Node} (inOrder : InOrder source c.start c.stop nodes)
    : InOrder source n.start n.stop nodes :=
  inOrder.widen (ordered.here.nested c child).1 (ordered.here.nested c child).2

-----------------------------------------------------------------------------------------
-- Nodes that are read without their children
-----------------------------------------------------------------------------------------

/-- What is gathered from the results of a search is gathered search by search. -/
theorem flatMap_filterMap {α β γ : Type} (f : α → Option β) (g : β → List γ) (as : List α)
    : (as.filterMap f).flatMap g = as.flatMap fun a => ((f a).map g).getD [] := by
  induction as with
  | nil => rfl
  | cons a rest ih => cases given : f a <;> simp [given, ih]

/-- A leaf that stands where a node starts is in order in the range of the node. -/
theorem leaf_inOrder (ordered : n.InSourceOrder) (form : Leaf)
    : InOrder source n.start n.stop (Node.leaf (n.position source) form).trail := by
  rw [Node.trail_leaf]
  exact InOrder.nil.cons ordered.here.range rfl rfl

/-- Nodes are in order in the range of a node, and no JSX is among them. -/
def PlainInOrder (source : List UInt8) (n : Cst) (nodes : List Node) : Prop :=
  InOrder source n.start n.stop nodes ∧ ∀ m ∈ nodes, m.isJsx = false

/-- A tag name is in order and has no JSX, by induction on size. -/
theorem toTagName_inOrder (ordered : n.InSourceOrder)
    : n.PlainInOrder source (toTagName source n).trail := by
  induction n using sizeInduction with
  | step n ih =>
      have found {f : Cst → Bool}
          : n.PlainInOrder source
              (((n.children.find? f).map (toTagName source)).getD .absent).trail := by
        cases given : n.children.find? f with
        | none =>
            simp only [Option.map_none, Option.getD_none, Node.trail_absent]
            exact ⟨.nil, nofun⟩
        | some c =>
            have child := List.mem_of_find?_eq_some given
            obtain ⟨inOrder, plain⟩ := ih c (sizeOf_lt_of_child child) (ordered.child child)
            exact ⟨ordered.widen child inOrder, plain⟩
      have wrap {form : Wrapper} {part : Node} (below : n.PlainInOrder source part.trail)
          : n.PlainInOrder source (Node.wrap (n.position source) form part).trail := by
        rw [Node.trail_wrap]
        exact ⟨below.1.cons ordered.here.range rfl rfl, List.forall_mem_cons.mpr ⟨rfl, below.2⟩⟩
      have leaf (form : Leaf)
          : n.PlainInOrder source (Node.leaf (n.position source) form).trail :=
        ⟨leaf_inOrder ordered form, by simp [Node.isJsx]⟩
      have absent : n.PlainInOrder source Node.absent.trail := by
        rw [Node.trail_absent]
        exact ⟨.nil, nofun⟩
      cases n with
      | node kind field named start stop children =>
          rw [toTagName, fieldToTagName_eq, firstToTagName_eq]
          split
          · exact leaf _
          · split
            · split
              · exact leaf _
              · exact absent
            · split
              · split
                · exact wrap found
                · split
                  · exact wrap found
                  · exact absent
              · exact absent

/-- The specifiers of one part of an import clause stand where the part or its own parts start. -/
theorem toSpecifiers_inOrder (ordered : n.InSourceOrder)
    : InOrder source n.start n.stop ((toSpecifiers source n).flatMap Node.trail) := by
  rw [toSpecifiers]
  split
  · rw [List.flatMap_singleton]
    exact leaf_inOrder ordered _
  · split
    · rw [List.flatMap_singleton]
      exact leaf_inOrder ordered _
    · exact .nil
  · rw [List.flatMap_map]
    refine ordered.gather (fun c chosen => ?_) ((ordered.here.ordered.filter _).filter _)
      fun c chosen => ?_
    · exact List.mem_of_mem_filter (List.mem_of_mem_filter chosen)
    · refine leaf_inOrder (ordered.child ?_) _
      exact List.mem_of_mem_filter (List.mem_of_mem_filter chosen)
  · exact .nil

theorem toImport_inOrder (ordered : n.InSourceOrder)
    : InOrder source n.start n.stop (toImport source n).trail := by
  rw [toImport, Node.trail_group, List.flatMap_assoc]
  refine .cons ?_ ordered.here.range rfl rfl
  refine ordered.gather (fun _ => List.mem_of_mem_filter) (ordered.here.ordered.filter _)
    fun clause chosen => ?_
  have clauseOrdered := ordered.child (List.mem_of_mem_filter chosen)
  rw [List.flatMap_assoc]
  exact clauseOrdered.gather (fun _ => List.mem_of_mem_filter) (clauseOrdered.here.ordered.filter _)
    fun part found => toSpecifiers_inOrder (clauseOrdered.child (List.mem_of_mem_filter found))

theorem objectPattern_inOrder (ordered : n.InSourceOrder)
    : InOrder source n.start n.stop
        (Node.group (n.position source) .objectPattern
          (n.parts.filterMap (toProperty? source))).trail := by
  rw [Node.trail_group, flatMap_filterMap]
  refine .cons ?_ ordered.here.range rfl rfl
  refine ordered.gather (fun _ => List.mem_of_mem_filter) (ordered.here.ordered.filter _)
    fun part found => ?_
  have partOrdered := ordered.child (List.mem_of_mem_filter found)
  rw [toProperty?]
  split
  · exact leaf_inOrder partOrdered _
  · exact leaf_inOrder partOrdered _
  · exact .nil

-----------------------------------------------------------------------------------------
-- Nodes that are read with their children
-----------------------------------------------------------------------------------------

/-- The syntax of a node is in order in its range. -/
def KeepsOrder (source : List UInt8) (n : Cst) : Prop :=
  ∀ exported, InOrder source n.start n.stop (toAst source exported n).trail

section

variable (ordered : n.InSourceOrder) (each : ∀ c ∈ n.children, c.KeepsOrder source)

include ordered each

theorem selection_inOrder (keep : Cst → Bool) (exported : Bool)
    : InOrder source n.start n.stop
        (((n.children.filter keep).map (toAst source exported)).flatMap Node.trail) := by
  rw [List.flatMap_map]
  exact ordered.gather (fun _ => List.mem_of_mem_filter) (ordered.here.ordered.filter _)
    fun c chosen => each c (List.mem_of_mem_filter chosen) exported

theorem list_inOrder (exported : Bool)
    : InOrder source n.start n.stop
        ((listToAst source exported n.children).flatMap Node.trail) := by
  rw [listToAst_eq]
  exact selection_inOrder ordered each _ exported

theorem group_inOrder {form : Group} (exported : Bool)
    (plain : (Node.group (n.position source) form []).isJsx = false)
    : InOrder source n.start n.stop
        (Node.group (n.position source) form (listToAst source exported n.children)).trail := by
  rw [Node.trail_group]
  refine .cons (list_inOrder ordered each exported) ordered.here.range rfl ?_
  cases form <;> first | rfl | cases plain

/-- The nodes of some fields are in order if the fields are. -/
theorem fields_inOrder {names : List String} (inFields : n.FieldsInOrder names)
    : InOrder source n.start n.stop
        (names.flatMap fun name => (fieldToAst source name n.children).trail) := by
  have found (name : String)
      : (fieldToAst source name n.children).trail
        = ((n.field? name).map fun c => (toAst source false c).trail).getD [] := by
    rw [fieldToAst_eq, ← field?]
    cases n.field? name with
    | none => exact Node.trail_absent
    | some c => rfl
  have among (c : Cst) (chosen : c ∈ names.filterMap n.field?) : c ∈ n.children := by
    obtain ⟨name, _, given⟩ := List.mem_filterMap.mp chosen
    exact List.mem_of_find?_eq_some given
  simp only [found, ← flatMap_filterMap]
  exact ordered.gather among inFields fun c chosen => each c (among c chosen) false

theorem field_inOrder (name : String)
    : InOrder source n.start n.stop (fieldToAst source name n.children).trail := by
  have single : n.FieldsInOrder [name] := by
    rw [FieldsInOrder]
    cases given : n.field? name <;> simp [given]
  have alone := fields_inOrder ordered each single
  rwa [List.flatMap_singleton] at alone

theorem first_inOrder
    : InOrder source n.start n.stop (firstToAst source n.children).trail := by
  rw [firstToAst_eq]
  cases given : n.children.find? isStructural with
  | none =>
      simp only [Option.map_none, Option.getD_none, Node.trail_absent]
      exact .nil
  | some c =>
      have child := List.mem_of_find?_eq_some given
      exact ordered.widen child (each c child false)

end

/-- All smaller nodes of the text keep the order, if they are in order. -/
def SmallerKeepOrder (source : List UInt8) (n : Cst) : Prop :=
  ∀ m : Cst, sizeOf m < sizeOf n → m.Readable source → m.KeepsOrder source

theorem SmallerKeepOrder.child (smaller : n.SmallerKeepOrder source) {c : Cst}
    (child : c ∈ n.children)
    : c.SmallerKeepOrder source :=
  fun m less => smaller m (Nat.lt_trans less (sizeOf_lt_of_child child))

theorem SmallerKeepOrder.each (smaller : n.SmallerKeepOrder source) (readable : n.Readable source)
    : ∀ c ∈ n.children, c.KeepsOrder source :=
  fun c child => smaller c (sizeOf_lt_of_child child) (readable.child child)

/-- The members of a class lie in its body. -/
theorem members_inOrder (readable : n.Readable source) (smaller : n.SmallerKeepOrder source)
    (name : Option String)
    : InOrder source n.start n.stop
        (Node.group (n.position source) (.classDeclaration name)
          (membersToAst source n.children)).trail := by
  rw [Node.trail_group]
  refine .cons ?_ readable.ordered.here.range rfl rfl
  rw [membersToAst_eq]
  cases found : n.children.find? (·.field == some "body") with
  | none => exact .nil
  | some body =>
      have child := List.mem_of_find?_eq_some found
      have inside := readable.child child
      exact readable.ordered.widen child
        (list_inOrder inside.ordered ((smaller.child child).each inside) _)

-----------------------------------------------------------------------------------------
-- Tags
-----------------------------------------------------------------------------------------

theorem tagPart_inOrder (readable : n.Readable source) (smaller : n.SmallerKeepOrder source)
    : InOrder source n.start n.stop (tagPartToAst source n).trail := by
  rw [tagPartToAst]
  split
  · exact leaf_inOrder readable.ordered _
  · exact group_inOrder readable.ordered (smaller.each readable) false rfl

theorem toTagName_of_isTagAttribute (source : List UInt8) (attr : isTagAttribute n = true)
    : toTagName source n = .absent := by
  rcases Bool.or_eq_true_iff.mp attr with kind | kind <;>
    (cases n; cases eq_of_beq kind; rfl)

/-- The nodes of a tag. -/
def tagTrail (source : List UInt8) (tag : Cst) : List Node :=
  (((tag.field? "name").map (toTagName source)).getD .absent).trail
    ++ (attributesToAst source tag.children).flatMap Node.trail

/-- The attributes of a tag are in order from any offset that stands before all of them. -/
theorem attributes_inOrder (readable : n.Readable source) (smaller : n.SmallerKeepOrder source)
    {start : Nat} (le : start ≤ n.stop)
    (before : ∀ c ∈ n.parts, isTagAttribute c = true → start ≤ c.start)
    : InOrder source start n.stop ((attributesToAst source n.children).flatMap Node.trail) := by
  have among {c : Cst} (chosen : c ∈ n.parts.filter isTagAttribute) : c ∈ n.children :=
    List.mem_of_mem_filter (List.mem_of_mem_filter chosen)
  rw [attributesToAst_eq, ← parts, List.flatMap_map]
  refine .gather le (fun c chosen => ?_) ((readable.ordered.here.ordered.filter _).filter _)
    fun c chosen => ?_
  · obtain ⟨part, attr⟩ := List.mem_filter.mp chosen
    exact ⟨before c part attr, (readable.ordered.child (among chosen)).here.range,
      (readable.ordered.here.nested c (among chosen)).2⟩
  · exact tagPart_inOrder (readable.child (among chosen)) (smaller.child (among chosen))

/-- The name of a tag comes before its attributes, and they are in order. -/
theorem tagTrail_inOrder (readable : n.Readable source) (begins : n.Begins)
    (smaller : n.SmallerKeepOrder source)
    : InOrder source n.start n.stop (n.tagTrail source) := by
  have alone : InOrder source n.start n.stop
      ((attributesToAst source n.children).flatMap Node.trail) :=
    attributes_inOrder readable smaller readable.ordered.here.range fun c part _ =>
      (readable.ordered.here.nested c (List.mem_of_mem_filter part)).1
  rw [tagTrail]
  cases named : n.field? "name" with
  | none =>
      simp only [Option.map_none, Option.getD_none, Node.trail_absent, List.nil_append]
      exact alone
  | some name =>
      have child : name ∈ n.children := List.mem_of_find?_eq_some named
      have outer := readable.ordered.here.nested name child
      have proper := (readable.ordered.child child).here.range
      cases attr : isTagAttribute name with
      | true =>
          -- an attribute gives no name
          rw [Option.map_some, Option.getD_some, toTagName_of_isTagAttribute source attr,
            Node.trail_absent, List.nil_append]
          exact alone
      | false =>
          have front : InOrder source n.start name.stop (toTagName source name).trail :=
            (toTagName_inOrder (readable.ordered.child child)).1.widen outer.1 le_rfl
          have behind : InOrder source name.stop n.stop
              ((attributesToAst source n.children).flatMap Node.trail) :=
            attributes_inOrder readable smaller outer.2
              (readable.ordered.here.tag begins name named attr)
          exact front.append behind (Nat.le_trans outer.1 proper) outer.2

/-- All JSX in a tag stands behind the first byte of the tag. -/
theorem tagTrail_behind (readable : n.Readable source) (begins : n.Begins)
    (smaller : n.SmallerKeepOrder source)
    : JsxBehind source n.start (n.tagTrail source) := by
  obtain ⟨own, uncovered⟩ := readable.ordered.here.begins begins
  have inside : n.start < source.length := Nat.lt_of_lt_of_le own readable.inside
  refine .append ?_ ?_
  · cases named : n.field? "name" with
    | none =>
        simp only [Option.map_none, Option.getD_none, Node.trail_absent]
        exact .of_plain nofun
    | some name =>
        have child : name ∈ n.children := List.mem_of_find?_eq_some named
        exact .of_plain (toTagName_inOrder (readable.ordered.child child)).2
  · rw [attributesToAst_eq, List.flatMap_map]
    refine .flatMap fun c chosen => ?_
    have child : c ∈ n.children := List.mem_of_mem_filter (List.mem_of_mem_filter chosen)
    exact .of_uncovered (tagPart_inOrder (readable.child child) (smaller.child child))
      (readable.ordered.here.nested c child).1 inside (uncovered c child)

theorem selfClosing_inOrder (readable : n.Readable source)
    (kind : n.kind = "jsx_self_closing_element") (smaller : n.SmallerKeepOrder source)
    : n.KeepsOrder source := by
  intro exported
  have begins : n.Begins := Or.inr kind
  have own := (readable.ordered.here.begins begins).1
  have reads : toAst source exported n
      = .element (n.position source) (((n.field? "name").map (toTagName source)).getD .absent)
          (attributesToAst source n.children) [] true n.insertOffset := by
    cases n
    cases kind
    rfl
  rw [reads, Node.trail_element, List.flatMap_nil, List.append_nil]
  exact (tagTrail_inOrder readable begins smaller).cons_jsx own
    (Nat.lt_of_lt_of_le own readable.inside) rfl (tagTrail_behind readable begins smaller)

-----------------------------------------------------------------------------------------
-- Elements with two tags
-----------------------------------------------------------------------------------------

/-- The content of an element stands behind its opening tag, which comes first. -/
theorem content_inOrder (readable : n.Readable source) (smaller : n.SmallerKeepOrder source)
    {tag : Cst} (first : n.children.head? = some tag) (kind : tag.kind = "jsx_opening_element")
    : InOrder source tag.stop n.stop ((contentToAst source n.children).flatMap Node.trail) := by
  obtain ⟨rest, children⟩ := List.head?_eq_some_iff.mp first
  have ordered := readable.ordered.here.ordered
  have child : tag ∈ n.children := List.mem_of_head? first
  have inRest {c : Cst} (chosen : c ∈ rest.filter isContent) : c ∈ n.children := by
    rw [children]
    exact List.mem_cons_of_mem _ (List.mem_of_mem_filter chosen)
  rw [children, List.pairwise_cons] at ordered
  have skipped : (tag :: rest).filter isContent = rest.filter isContent := by
    rw [List.filter_cons_of_neg (by simp [isContent, kind])]
  rw [contentToAst_eq, children, skipped, List.flatMap_map]
  refine .gather (readable.ordered.here.nested tag child).2 (fun c chosen => ?_)
    (ordered.2.filter _) fun c chosen => ?_
  · exact ⟨ordered.1 c (List.mem_of_mem_filter chosen),
      (readable.ordered.child (inRest chosen)).here.range,
      (readable.ordered.here.nested c (inRest chosen)).2⟩
  · exact smaller.each readable c (inRest chosen) false

theorem element_inOrder (readable : n.Readable source) (element : n.kind = "jsx_element")
    (smaller : n.SmallerKeepOrder source)
    : n.KeepsOrder source := by
  intro exported
  obtain ⟨tag, first, field, kind, start⟩ := readable.ordered.here.opened element
  have child : tag ∈ n.children := List.mem_of_head? first
  have opens : n.field? "open_tag" = some tag := by
    obtain ⟨rest, children⟩ := List.head?_eq_some_iff.mp first
    rw [field?, children, List.find?_cons_of_pos (by simp [field])]
  have begins : tag.Begins := Or.inl kind
  have inTag := readable.child child
  have own := (inTag.ordered.here.begins begins).1
  have outer := readable.ordered.here.nested tag child
  have inside : n.start < source.length :=
    start ▸ Nat.lt_of_lt_of_le own inTag.inside
  have less : n.start < n.stop := start ▸ Nat.lt_of_lt_of_le own outer.2
  have content := content_inOrder readable smaller first kind
  have behind : JsxBehind source n.start ((contentToAst source n.children).flatMap Node.trail) :=
    .of_start content (start ▸ own) inside
  by_cases nameless : ∀ tag, n.field? "open_tag" = some tag → tag.field? "name" = none
  · rw [toAst_of_nameless source exported element nameless, Node.trail_group]
    refine (content.widen ?_ le_rfl).cons_jsx less inside rfl behind
    exact start ▸ Nat.le_of_lt own
  · push Not at nameless
    obtain ⟨other, same, name⟩ := nameless
    obtain rfl : tag = other := Option.some.inj (opens.symm.trans same)
    obtain ⟨name, named⟩ := Option.ne_none_iff_exists'.mp name
    have front := tagTrail_inOrder inTag begins (smaller.child child)
    have inFront := tagTrail_behind inTag begins (smaller.child child)
    rw [start] at front inFront
    rw [toAst_of_name source exported element opens named, Node.trail_element, ← List.append_assoc]
    have trail : tag.tagTrail source = (toTagName source name).trail
        ++ (attributesToAst source tag.children).flatMap Node.trail := by
      rw [tagTrail, named]
      rfl
    rw [← trail]
    refine (front.append content ?_ outer.2).cons_jsx less inside ?_ (inFront.append behind)
    · exact start ▸ Nat.le_of_lt own
    · exact start ▸ rfl

-----------------------------------------------------------------------------------------
-- All constructs
-----------------------------------------------------------------------------------------

/-- The syntax of every node in a tree in order is in order, by induction on size and cases on the
construct.
-/
theorem keepsOrder (readable : n.Readable source) : n.KeepsOrder source := by
  induction n using sizeInduction with
  | step n smaller =>
      have smaller : n.SmallerKeepOrder source := smaller
      by_cases element : n.kind = "jsx_element"
      · exact element_inOrder readable element smaller
      by_cases selfClosing : n.kind = "jsx_self_closing_element"
      · exact selfClosing_inOrder readable selfClosing smaller
      intro exported
      have ordered := readable.ordered
      have each := smaller.each readable
      have field := field_inOrder ordered each
      have first := first_inOrder ordered each
      have range := ordered.here.range
      cases n with
      | node kind field' named start stop children =>
          cases construct : Construct.ofKind kind with
          | element => exact absurd (kind_of_construct construct) element
          | selfClosingElement => exact absurd (kind_of_construct construct) selfClosing
          | name | string | jsxText =>
              simp only [toAst, construct]
              exact leaf_inOrder ordered _
          | importStatement =>
              simp only [toAst, construct]
              exact toImport_inOrder ordered
          | objectPattern =>
              simp only [toAst, construct]
              exact objectPattern_inOrder ordered
          | variableDeclaration =>
              simp only [toAst, construct, Node.trail_group, declaratorsToAst_eq]
              exact (selection_inOrder ordered each _ false).cons range rfl rfl
          | declarator =>
              have inFields := ordered.here.declarator (kind_of_construct construct)
              have both := fields_inOrder ordered each inFields
              simp only [List.flatMap_cons, List.flatMap_nil, List.append_nil] at both
              simp only [toAst, construct, Node.trail_declarator]
              exact both.cons range rfl rfl
          | conditional =>
              have inFields := ordered.here.conditional (kind_of_construct construct)
              have three := fields_inOrder ordered each inFields
              simp only [List.flatMap_cons, List.flatMap_nil, List.append_nil] at three
              simp only [toAst, construct, Node.trail_conditional]
              exact three.cons range rfl rfl
          | functionStatement | arrow | method | member =>
              simp only [toAst, construct, Node.trail_wrap]
              exact (field _).cons range rfl rfl
          | returnStatement | jsxExpression =>
              simp only [toAst, construct, Node.trail_wrap]
              exact first.cons range rfl rfl
          | classStatement =>
              simp only [toAst, construct]
              exact members_inOrder readable smaller _
          | classExpression =>
              cases exported with
              | true =>
                  simp only [toAst, construct]
                  exact members_inOrder readable smaller _
              | false =>
                  simp only [toAst, construct]
                  exact group_inOrder ordered each false rfl
          | block | other =>
              simp only [toAst, construct]
              exact group_inOrder ordered each _ rfl
          | parentheses =>
              simp only [toAst, construct]
              split
              · exact first
              · exact group_inOrder ordered each false rfl

end JsxProvenance.Cst
