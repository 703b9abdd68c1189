import JsxProvenance.Proofs.Cst.Offsets

/-! All elements of a file land well. The conversion is followed construct by construct: the syntax
of a node takes the syntax of some of its children, each at most once, and that of a tag adds one
element.
-/

namespace JsxProvenance.Cst

open Ast

variable {strict : Prop} {source : List UInt8} {opening : Bool} {n : Cst}

-----------------------------------------------------------------------------------------
-- What is asked of a node
-----------------------------------------------------------------------------------------

/-- A node lies well, and if that is asked, attributes stand only in tags, and the bodies of classes
are no JSX.
-/
structure Ready (strict : Prop) (opening : Bool) (n : Cst) : Prop where
  laid : n.Laid opening
  confined : strict → n.Confined opening
  bodies : strict → n.PlainBodies

theorem Ready.bodies_child (ready : n.Ready strict opening) {c : Cst} (child : c ∈ n.children)
    (asked : strict)
    : c.PlainBodies :=
  fun m below => ready.bodies asked m (mem_nodes_of_child child below)

theorem Ready.child (ready : n.Ready strict opening) {c : Cst} (child : c ∈ n.children)
    (closed : strict → n.kind ≠ "jsx_element" ∨ c.kind ≠ "jsx_opening_element")
    : c.Ready strict false where
  laid := Laid.child ready.laid child
  confined := by
    intro asked
    rcases Everywhere.child_cases (ready.confined asked) child with plain | ⟨element, opens, _⟩
    · exact plain
    · have kind := ready.laid.here.opened element c opens
      exact absurd kind ((closed asked).resolve_left (not_not_intro element))
  bodies := ready.bodies_child child

theorem Ready.openTag (ready : n.Ready strict opening) (element : n.kind = "jsx_element")
    {tag : Cst} (opens : n.field? "open_tag" = some tag)
    : tag.Ready strict true where
  laid := Everywhere.openTag ready.laid element opens
  confined asked := Everywhere.openTag (ready.confined asked) element opens
  bodies := ready.bodies_child (List.mem_of_find?_eq_some opens)

theorem Ready.bare (ready : n.Ready strict opening) (noTag : strict → ¬ n.IsTag opening) {c : Cst}
    (child : c ∈ n.children)
    : strict → c.kind ≠ "jsx_attribute" :=
  fun asked => (ready.confined asked).here (noTag asked) c child

-----------------------------------------------------------------------------------------
-- Nodes whose children land
-----------------------------------------------------------------------------------------

/-- The syntax of each child of a node lands in the child. -/
def ChildrenLand (strict : Prop) (source : List UInt8) (n : Cst) : Prop :=
  ∀ c ∈ n.children, ∀ exported, LandApart strict source c (toAst source exported c).elements

section

variable (laid : n.Laid opening) (plain : strict → n.kind ≠ "jsx_attribute")
  (each : n.ChildrenLand strict source)

include laid plain each

theorem ChildrenLand.filter (keep : Cst → Bool) (exported : Bool)
    : LandApart strict source n
        (((n.children.filter keep).map (toAst source exported)).flatMap Node.elements) := by
  rw [List.flatMap_map]
  exact LandApart.of_children laid plain (fun c member => List.mem_of_mem_filter member)
    (laid.here.apart_filter keep) fun c member => each c (List.mem_of_mem_filter member) exported

theorem ChildrenLand.list (exported : Bool)
    : LandApart strict source n
        ((listToAst source exported n.children).flatMap Node.elements) := by
  rw [listToAst_eq]
  exact filter laid plain each isStructural exported

theorem ChildrenLand.first : LandApart strict source n (firstToAst source n.children).elements := by
  rw [firstToAst_eq, elements_getD_map]
  refine LandApart.of_children laid plain (fun c member => ?_) ?_ (fun c member => ?_)
  · exact List.mem_of_find?_eq_some (Option.mem_toList.mp member)
  · cases n.children.find? isStructural <;> simp
  · exact each c (List.mem_of_find?_eq_some (Option.mem_toList.mp member)) false

/-- Different fields are filled by different children. -/
theorem ChildrenLand.fields {names : List String} (different : names.Nodup)
    : LandApart strict source n
        (names.flatMap fun name => (fieldToAst source name n.children).elements) := by
  have filled {name : String} {c : Cst}
      (member : c ∈ (n.children.find? (·.field == some name)).toList)
      : c ∈ n.children ∧ c.field = some name := by
    have found := Option.mem_toList.mp member
    have field := List.find?_some found
    exact ⟨List.mem_of_find?_eq_some found, eq_of_beq field⟩
  have chosen
      : (names.flatMap fun name => (n.children.find? (·.field == some name)).toList).flatMap
            (fun c => (toAst source false c).elements)
        = names.flatMap fun name => (fieldToAst source name n.children).elements := by
    simp only [List.flatMap_assoc, fieldToAst_eq, elements_getD_map]
  rw [← chosen]
  refine LandApart.of_children laid plain (fun c member => ?_) ?_ (fun c member => ?_)
  · obtain ⟨name, _, found⟩ := List.mem_flatMap.mp member
    exact (filled found).1
  · rw [List.pairwise_flatMap]
    refine ⟨fun name _ => ?_, different.imp fun other c first d second => ?_⟩
    · cases n.children.find? (·.field == some name) <;> simp
    · refine laid.here.apart (filled first).1 (filled second).1 fun same => other ?_
      have both := (filled first).2.symm.trans (same ▸ (filled second).2)
      exact Option.some.inj both
  · obtain ⟨name, _, found⟩ := List.mem_flatMap.mp member
    exact each c (filled found).1 false

theorem ChildrenLand.field (name : String)
    : LandApart strict source n (fieldToAst source name n.children).elements := by
  simpa using fields laid plain each (List.nodup_singleton name)

end

-----------------------------------------------------------------------------------------
-- One construct after the other
-----------------------------------------------------------------------------------------

/-- The syntax of a node lands in the node. -/
def SyntaxLands (strict : Prop) (source : List UInt8) (n : Cst) : Prop :=
  n.Ready strict false
  → (strict → n.kind ≠ "jsx_attribute")
  → ∀ exported, LandApart strict source n (toAst source exported n).elements

/-- The syntax of all nodes that are smaller than a node lands in them. -/
def SmallerLand (strict : Prop) (source : List UInt8) (n : Cst) : Prop :=
  ∀ m : Cst, sizeOf m < sizeOf n → m.SyntaxLands strict source

theorem SmallerLand.child (smaller : n.SmallerLand strict source) {c : Cst}
    (child : c ∈ n.children)
    : c.SmallerLand strict source :=
  fun m less => smaller m (Nat.lt_trans less (sizeOf_lt_of_child child))

theorem not_isTag_of_not_isJsx (other : ¬ n.IsJsx) : ¬ n.IsTag false := by
  rintro (selfClosing | ⟨no, _⟩)
  · exact other (Or.inr selfClosing)
  · cases no

/-- A node that is no JSX has children that land, if the syntax of smaller nodes does. -/
theorem ChildrenLand.of_smaller (ready : n.Ready strict false) (other : strict → ¬ n.IsJsx)
    (smaller : n.SmallerLand strict source)
    : n.ChildrenLand strict source := by
  intro c child
  refine smaller c (sizeOf_lt_of_child child) (ready.child child fun asked => Or.inl ?_) ?_
  · exact fun element => other asked (Or.inl element)
  · exact ready.bare (fun asked => not_isTag_of_not_isJsx (other asked)) child

/-- What stands in the spreads of a tag lands in the spreads. -/
theorem spread_landApart (ready : n.Ready strict opening)
    (smaller : n.SmallerLand strict source) {c : Cst}
    (member : c ∈ n.children.filter isSpread)
    : LandApart strict source c ((listToAst source false c.children).flatMap Node.elements) := by
  obtain ⟨child, spread⟩ := List.mem_filter.mp member
  have kind : c.kind = "jsx_expression" := eq_of_beq (Bool.and_eq_true_iff.mp spread).2
  have below : c.Ready strict false := by
    refine ready.child child fun _ => Or.inr ?_
    rw [kind]
    decide
  have other : ¬ c.IsJsx := by
    rw [IsJsx, kind]
    decide
  refine ChildrenLand.list below.laid (fun _ => ?_) ?_ false
  · rw [kind]
    decide
  · exact .of_smaller below (fun _ => other) (smaller.child child)

/-- The elements of a tag and of its spreads land in the tag. -/
theorem tag_landApart (ready : n.Ready strict opening) (isTag : n.IsTag opening)
    (plain : strict → n.kind ≠ "jsx_attribute")
    (smaller : n.SmallerLand strict source) {own : Node}
    (made : n.MakesElement source own)
    : LandApart strict source n
        (own :: (attributesToAst source n.children).flatMap Node.elements) := by
  rw [elements_attributesToAst]
  exact LandApart.of_tag ready.laid isTag plain made fun c member =>
    spread_landApart ready smaller member

/-- The elements of a self-closing tag land in the tag. -/
theorem selfClosing_landApart (ready : n.Ready strict false)
    (kind : n.kind = "jsx_self_closing_element") (smaller : n.SmallerLand strict source)
    (exported : Bool)
    : LandApart strict source n (toAst source exported n).elements := by
  have plain : strict → n.kind ≠ "jsx_attribute" := fun _ => by
    rw [kind]
    decide
  rw [toAst_of_selfClosing source exported kind, Node.elements_element, elements_tagName,
    List.flatMap_nil, List.append_nil, List.nil_append]
  exact tag_landApart ready (Or.inl kind) plain smaller ⟨[], true, rfl⟩

/-- The content of an element lands in the parts of the content. -/
theorem content_landApart (ready : n.Ready strict false) (element : n.kind = "jsx_element")
    (smaller : n.SmallerLand strict source) {c : Cst} (member : c ∈ n.children.filter isContent)
    : LandApart strict source c (toAst source false c).elements := by
  obtain ⟨child, content⟩ := List.mem_filter.mp member
  have closed : c.kind ≠ "jsx_opening_element" := by
    have kinds := (Bool.and_eq_true_iff.mp (Bool.and_eq_true_iff.mp content).1).2
    simpa using kinds
  have noTag : ¬ n.IsTag false := by
    simp [IsTag, element]
  exact smaller c (sizeOf_lt_of_child child) (ready.child child fun _ => Or.inr closed)
    (ready.bare (fun _ => noTag) child) false

theorem fragment_landApart (ready : n.Ready strict false) (element : n.kind = "jsx_element")
    (smaller : n.SmallerLand strict source)
    : LandApart strict source n ((contentToAst source n.children).flatMap Node.elements) := by
  have plain : strict → n.kind ≠ "jsx_attribute" := fun _ => by
    rw [element]
    decide
  rw [contentToAst_eq, List.flatMap_map]
  exact LandApart.of_children ready.laid plain (fun _ => List.mem_of_mem_filter)
    (ready.laid.here.apart_filter isContent)
    fun c member => content_landApart ready element smaller member

/-- The content of an element lies apart from its opening tag. -/
theorem content_apart (ready : n.Ready strict false) (element : n.kind = "jsx_element") {tag : Cst}
    (opens : n.field? "open_tag" = some tag) {c : Cst} (member : c ∈ n.children.filter isContent)
    : tag.Apart c := by
  obtain ⟨child, content⟩ := List.mem_filter.mp member
  refine ready.laid.here.apart (List.mem_of_find?_eq_some opens) child ?_
  rintro rfl
  simp [isContent, ready.laid.here.opened element tag opens] at content

/-- The elements of an element with a name land in it: those of the opening tag in the tag, and
those of the content in the parts of the content.
-/
theorem named_landApart (ready : n.Ready strict false) (element : n.kind = "jsx_element")
    (smaller : n.SmallerLand strict source) {tag name : Cst}
    (opens : n.field? "open_tag" = some tag) (named : tag.field? "name" = some name)
    (exported : Bool)
    : LandApart strict source n (toAst source exported n).elements := by
  have plain : strict → n.kind ≠ "jsx_attribute" := fun _ => by
    rw [element]
    decide
  have child : tag ∈ n.children := List.mem_of_find?_eq_some opens
  have kind : tag.kind = "jsx_opening_element" := ready.laid.here.opened element tag opens
  have reads := toAst_of_name source exported element opens named
  have made := makesElement_of_name source exported element opens named
  have opened := tag_landApart (ready.openTag element opens) (Or.inr ⟨rfl, by rw [named]; rfl⟩)
    (fun _ => by rw [kind]; decide) (smaller.child child) made
  have both : LandApart strict source n
      (((tag, toAst source exported n
            :: (attributesToAst source tag.children).flatMap Node.elements)
          :: (n.children.filter isContent).map fun c =>
            (c, (toAst source false c).elements)).flatMap (·.2)) := by
    apply LandApart.gather ready.laid plain
    · exact List.forall_mem_cons.mpr
        ⟨child, List.forall_mem_map.mpr fun _ => List.mem_of_mem_filter⟩
    · rw [List.pairwise_cons, List.pairwise_map]
      exact ⟨List.forall_mem_map.mpr fun _ => content_apart ready element opens,
        ready.laid.here.apart_filter isContent⟩
    · exact List.forall_mem_cons.mpr
        ⟨opened, List.forall_mem_map.mpr fun _ => content_landApart ready element smaller⟩
  rw [List.flatMap_cons, List.flatMap_map, List.cons_append] at both
  rw [reads, Node.elements_element, elements_toTagName, List.nil_append, ← reads,
    contentToAst_eq, List.flatMap_map]
  exact both

/-- The elements of an element with two tags land in it, by cases on the name of the opening tag. -/
theorem element_landApart (ready : n.Ready strict false) (element : n.kind = "jsx_element")
    (smaller : n.SmallerLand strict source) (exported : Bool)
    : LandApart strict source n (toAst source exported n).elements := by
  by_cases nameless : ∀ tag, n.field? "open_tag" = some tag → tag.field? "name" = none
  · rw [toAst_of_nameless source exported element nameless, Node.elements_group]
    exact fragment_landApart ready element smaller
  · push Not at nameless
    obtain ⟨tag, opens, name⟩ := nameless
    obtain ⟨name, named⟩ := Option.ne_none_iff_exists'.mp name
    exact named_landApart ready element smaller opens named exported

/-- The members of a class land in its body. -/
theorem members_landApart (ready : n.Ready strict false)
    (plain : strict → n.kind ≠ "jsx_attribute")
    (class' : n.kind ∈ ["class", "class_declaration", "abstract_class_declaration"])
    (smaller : n.SmallerLand strict source)
    : LandApart strict source n ((membersToAst source n.children).flatMap Node.elements) := by
  rw [membersToAst_eq]
  cases found : n.children.find? (·.field == some "body") with
  | none => exact LandApart.nil
  | some body =>
      have child := List.mem_of_find?_eq_some found
      have other (asked : strict) : ¬ body.IsJsx :=
        ready.bodies asked n (mem_nodes_self n) class' body found
      have noElement (asked : strict) : n.kind ≠ "jsx_element" := by
        intro kind
        rw [kind] at class'
        revert class'
        decide
      have noTag (asked : strict) : ¬ n.IsTag false := by
        rintro (kind | ⟨no, _⟩)
        · rw [kind] at class'
          revert class'
          decide
        · cases no
      have below : body.Ready strict false :=
        ready.child child fun asked => Or.inl (noElement asked)
      have landed := ChildrenLand.list below.laid (ready.bare noTag child)
        (.of_smaller below other (smaller.child child)) (body.kind == exportKind)
      have single : LandApart strict source n ([body].flatMap fun body =>
          (listToAst source (body.kind == exportKind) body.children).flatMap Node.elements) := by
        apply LandApart.of_children ready.laid plain
        · simpa using child
        · exact List.pairwise_singleton _ _
        · simpa using landed
      simpa using single

/-- The syntax of a node that is no JSX lands in the node, by cases on the construct. -/
theorem plain_landApart (ready : n.Ready strict false) (plain : strict → n.kind ≠ "jsx_attribute")
    (other : ¬ n.IsJsx) (smaller : n.SmallerLand strict source) (exported : Bool)
    : LandApart strict source n (toAst source exported n).elements := by
  have each := ChildrenLand.of_smaller ready (fun _ => other) smaller
  have list := each.list ready.laid plain
  have field := each.field ready.laid plain
  have first := each.first ready.laid plain
  cases n with
  | node kind field' named start stop children =>
      have members (class') := members_landApart ready plain class' smaller
      cases construct : Construct.ofKind kind with
      | element => exact absurd (Or.inl (kind_of_construct construct)) other
      | selfClosingElement => exact absurd (Or.inr (kind_of_construct construct)) other
      | name | string | jsxText =>
          simp only [toAst, construct, Node.elements_leaf]
          exact LandApart.nil
      | importStatement =>
          simp only [toAst, construct, elements_toImport]
          exact LandApart.nil
      | objectPattern =>
          simp only [toAst, construct, Node.elements_group, elements_objectPattern]
          exact LandApart.nil
      | variableDeclaration =>
          simp only [toAst, construct, Node.elements_group, declaratorsToAst_eq]
          exact each.filter ready.laid plain _ false
      | declarator =>
          have different : ["name", "value"].Nodup := by decide
          have both := each.fields ready.laid plain different
          simpa [toAst, construct, Cst.children] using both
      | conditional =>
          have different : ["condition", "consequence", "alternative"].Nodup := by decide
          have three := each.fields ready.laid plain different
          simpa [toAst, construct, Cst.children] using three
      | functionStatement | arrow | method =>
          simp only [toAst, construct, Node.elements_wrap]
          exact field "body"
      | member =>
          simp only [toAst, construct, Node.elements_wrap]
          exact field "object"
      | returnStatement | jsxExpression =>
          simp only [toAst, construct, Node.elements_wrap]
          exact first
      | classStatement =>
          simp only [toAst, construct, Node.elements_group]
          exact members (kind_of_construct construct)
      | classExpression =>
          cases exported with
          | true =>
              simp only [toAst, construct, if_true, Node.elements_group]
              exact members (kind_of_construct construct)
          | false =>
              simp only [toAst, construct, Bool.false_eq_true, if_false, Node.elements_group]
              exact list false
      | block | other =>
          simp only [toAst, construct, Node.elements_group]
          exact list _
      | parentheses =>
          simp only [toAst, construct]
          split
          · exact first
          · rw [Node.elements_group]
            exact list false

/-- The syntax of every node lands in the node, by induction on size. -/
theorem syntaxLands (n : Cst) : n.SyntaxLands strict source := by
  induction n using sizeInduction with
  | step n smaller =>
      intro ready plain exported
      by_cases other : n.IsJsx
      · rcases other with element | selfClosing
        · exact element_landApart ready element smaller exported
        · exact selfClosing_landApart ready selfClosing smaller exported
      · exact plain_landApart ready plain other smaller exported

end JsxProvenance.Cst
