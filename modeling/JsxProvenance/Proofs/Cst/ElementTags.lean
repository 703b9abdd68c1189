import JsxProvenance.Proofs.Cst.Offsets

/-! The tags that the elements of a file come from. The syntax of a node takes over the elements of
the nodes it is made of, and adds one of its own just if the node has a tag. If that tag has a name,
the element has an offset to write at.
-/

namespace JsxProvenance.Cst

open Ast

variable {source : List UInt8} {n : Cst} {e : Node}

-----------------------------------------------------------------------------------------
-- Elements of what a node is made of
-----------------------------------------------------------------------------------------

/-- An element is made from a tag in a node. An opening tag makes one only with a name. -/
def FromTag (source : List UInt8) (n : Cst) (e : Node) : Prop :=
  ∃ tag ∈ n.nodes,
    tag.MakesElement source e
    ∧ (tag.kind = "jsx_self_closing_element" ∨ (tag.field? "name").isSome = true)

theorem FromTag.of_child {c : Cst} (child : c ∈ n.children) (made : c.FromTag source e)
    : n.FromTag source e := by
  obtain ⟨tag, below, made⟩ := made
  exact ⟨tag, mem_nodes_of_child child below, made⟩

/-- The elements in the syntax of a node are made from tags in the node. -/
def ElementsFromTags (source : List UInt8) (n : Cst) : Prop :=
  ∀ exported, ∀ e ∈ (toAst source exported n).elements, n.FromTag source e

section

variable (each : ∀ c ∈ n.children, c.ElementsFromTags source)

include each

theorem fromTag_of_among {cs : List Cst} (among : ∀ c ∈ cs, c ∈ n.children) {exported : Bool}
    (member : e ∈ cs.flatMap fun c => (toAst source exported c).elements)
    : n.FromTag source e := by
  obtain ⟨c, chosen, inside⟩ := List.mem_flatMap.mp member
  exact (each c (among c chosen) exported e inside).of_child (among c chosen)

theorem fromTag_of_filter (keep : Cst → Bool) {exported : Bool}
    (member : e ∈ ((n.children.filter keep).map (toAst source exported)).flatMap Node.elements)
    : n.FromTag source e := by
  rw [List.flatMap_map] at member
  exact fromTag_of_among each (fun _ => List.mem_of_mem_filter) member

theorem fromTag_of_found (wanted : Cst → Bool)
    (member : e ∈ (((n.children.find? wanted).map (toAst source false)).getD .absent).elements)
    : n.FromTag source e := by
  rw [elements_getD_map] at member
  refine fromTag_of_among each (fun c chosen => ?_) member
  exact List.mem_of_find?_eq_some (Option.mem_toList.mp chosen)

theorem fromTag_of_list (exported : Bool)
    (member : e ∈ (listToAst source exported n.children).flatMap Node.elements)
    : n.FromTag source e := by
  rw [listToAst_eq] at member
  exact fromTag_of_filter each isStructural member

theorem fromTag_of_first (member : e ∈ (firstToAst source n.children).elements)
    : n.FromTag source e := by
  rw [firstToAst_eq] at member
  exact fromTag_of_found each _ member

theorem fromTag_of_field (name : String)
    (member : e ∈ (fieldToAst source name n.children).elements)
    : n.FromTag source e := by
  rw [fieldToAst_eq] at member
  exact fromTag_of_found each _ member

end

-----------------------------------------------------------------------------------------
-- One construct after the other
-----------------------------------------------------------------------------------------

/-- The elements of all smaller nodes are made from tags in them. -/
def SmallerFromTags (source : List UInt8) (n : Cst) : Prop :=
  ∀ m : Cst, sizeOf m < sizeOf n → m.ElementsFromTags source

theorem SmallerFromTags.child (smaller : n.SmallerFromTags source) {c : Cst}
    (child : c ∈ n.children)
    : c.SmallerFromTags source :=
  fun m less => smaller m (Nat.lt_trans less (sizeOf_lt_of_child child))

theorem SmallerFromTags.each (smaller : n.SmallerFromTags source)
    : ∀ c ∈ n.children, c.ElementsFromTags source :=
  fun c child => smaller c (sizeOf_lt_of_child child)

theorem fromTag_of_members (smaller : n.SmallerFromTags source)
    (member : e ∈ (membersToAst source n.children).flatMap Node.elements)
    : n.FromTag source e := by
  rw [membersToAst_eq] at member
  cases found : n.children.find? (·.field == some "body") with
  | none =>
      rw [found] at member
      cases member
  | some body =>
      rw [found] at member
      have child := List.mem_of_find?_eq_some found
      exact (fromTag_of_list (smaller.child child).each _ member).of_child child

theorem fromTag_of_attributes (smaller : n.SmallerFromTags source)
    (member : e ∈ (attributesToAst source n.children).flatMap Node.elements)
    : n.FromTag source e := by
  rw [elements_attributesToAst] at member
  obtain ⟨spread, chosen, inside⟩ := List.mem_flatMap.mp member
  have child := List.mem_of_mem_filter chosen
  exact (fromTag_of_list (smaller.child child).each false inside).of_child child

theorem fromTag_of_content (smaller : n.SmallerFromTags source)
    (member : e ∈ (contentToAst source n.children).flatMap Node.elements)
    : n.FromTag source e := by
  rw [contentToAst_eq] at member
  exact fromTag_of_filter smaller.each isContent member

/-- An element with two tags is made from its opening tag, and the elements in it from tags in the
opening tag and in the content.
-/
theorem elementsFromTags_of_twoTags (smaller : n.SmallerFromTags source)
    (element : n.kind = "jsx_element")
    : n.ElementsFromTags source := by
  intro exported e member
  by_cases nameless : ∀ tag, n.field? "open_tag" = some tag → tag.field? "name" = none
  · rw [toAst_of_nameless source exported element nameless, Node.elements_group] at member
    exact fromTag_of_content smaller member
  · push Not at nameless
    obtain ⟨tag, opens, name⟩ := nameless
    obtain ⟨name, named⟩ := Option.ne_none_iff_exists'.mp name
    have child := List.mem_of_find?_eq_some opens
    have made := makesElement_of_name source exported element opens named
    have reads := toAst_of_name source exported element opens named
    rw [reads, Node.elements_element, elements_toTagName, List.nil_append, ← reads] at member
    rcases List.mem_cons.mp member with rfl | inside
    · refine ⟨tag, mem_nodes_of_child child (mem_nodes_self tag), made, Or.inr ?_⟩
      exact Option.isSome_iff_exists.mpr ⟨name, named⟩
    · rcases List.mem_append.mp inside with inTag | inContent
      · exact (fromTag_of_attributes (smaller.child child) inTag).of_child child
      · exact fromTag_of_content smaller inContent

theorem elementsFromTags_of_selfClosing (smaller : n.SmallerFromTags source)
    (kind : n.kind = "jsx_self_closing_element")
    : n.ElementsFromTags source := by
  intro exported e member
  rw [toAst_of_selfClosing source exported kind, Node.elements_element, elements_tagName,
    List.nil_append, List.flatMap_nil, List.append_nil] at member
  rcases List.mem_cons.mp member with rfl | inside
  · exact ⟨n, mem_nodes_self n, ⟨[], true, rfl⟩, Or.inl kind⟩
  · exact fromTag_of_attributes smaller inside

/-- All elements are made from tags, by induction on size and cases on the construct. -/
theorem elementsFromTags (n : Cst) : n.ElementsFromTags source := by
  induction n using sizeInduction with
  | step n smaller =>
      have smaller : n.SmallerFromTags source := smaller
      by_cases element : n.kind = "jsx_element"
      · exact elementsFromTags_of_twoTags smaller element
      by_cases selfClosing : n.kind = "jsx_self_closing_element"
      · exact elementsFromTags_of_selfClosing smaller selfClosing
      intro exported e member
      have list (exported) := fromTag_of_list smaller.each (e := e) exported
      have field (name) := fromTag_of_field smaller.each (e := e) name
      have first := fromTag_of_first smaller.each (e := e)
      have members := fromTag_of_members smaller (e := e)
      cases n with
      | node kind field' named start stop children =>
          cases construct : Construct.ofKind kind with
          | element => exact absurd (kind_of_construct construct) element
          | selfClosingElement => exact absurd (kind_of_construct construct) selfClosing
          | name | string | jsxText =>
              simp only [toAst, construct, Node.elements_leaf, List.not_mem_nil] at member
          | importStatement =>
              simp only [toAst, construct, elements_toImport, List.not_mem_nil] at member
          | objectPattern =>
              simp only [toAst, construct, Node.elements_group, elements_objectPattern,
                List.not_mem_nil] at member
          | variableDeclaration =>
              simp only [toAst, construct, Node.elements_group, declaratorsToAst_eq] at member
              exact fromTag_of_filter smaller.each _ member
          | declarator =>
              simp only [toAst, construct, Node.elements_declarator, List.mem_append] at member
              exact member.elim (field _) (field _)
          | conditional =>
              simp only [toAst, construct, Node.elements_conditional, List.mem_append] at member
              exact member.elim (field _) fun later => later.elim (field _) (field _)
          | functionStatement | arrow | method | member =>
              simp only [toAst, construct, Node.elements_wrap] at member
              exact field _ member
          | returnStatement | jsxExpression =>
              simp only [toAst, construct, Node.elements_wrap] at member
              exact first member
          | classStatement =>
              simp only [toAst, construct, Node.elements_group] at member
              exact members member
          | classExpression =>
              cases exported with
              | true =>
                  simp only [toAst, construct, if_true, Node.elements_group] at member
                  exact members member
              | false =>
                  simp only [toAst, construct, Bool.false_eq_true, if_false,
                    Node.elements_group] at member
                  exact list _ member
          | block | other =>
              simp only [toAst, construct, Node.elements_group] at member
              exact list _ member
          | parentheses =>
              simp only [toAst, construct] at member
              split at member
              · exact first member
              · rw [Node.elements_group] at member
                exact list _ member

-----------------------------------------------------------------------------------------
-- Elements with offsets
-----------------------------------------------------------------------------------------

/-- Every tag that makes an element has a name: an opening tag without one makes a fragment, so this
only asks for the names of self-closing tags.
-/
def TagsNamed (root : Cst) : Prop :=
  ∀ tag ∈ root.nodes,
    tag.kind = "jsx_self_closing_element" → (tag.field? "name").isSome = true

instance (root : Cst) : Decidable root.TagsNamed :=
  inferInstanceAs (Decidable (∀ _ ∈ _, _))

theorem FromTag.insertOffset?_isSome {root : Cst} (made : root.FromTag source e)
    (named : root.TagsNamed)
    : e.insertOffset?.isSome = true := by
  obtain ⟨tag, below, ⟨children, selfClosing, rfl⟩, closed⟩ := made
  have name : (tag.field? "name").isSome = true := by
    rcases closed with kind | name
    · exact named tag below kind
    · exact name
  obtain ⟨offset, written, _⟩ := insertOffset_spec name
  exact Option.isSome_iff_exists.mpr ⟨offset, written⟩

/-- The elements of a file in which every tag has a name can be written to. -/
theorem toProgram_writable {root : Cst} (named : root.TagsNamed) (filename : String)
    (source : List UInt8)
    : (root.toProgram filename source).Writable := by
  intro place member
  have inBody : place.node ∈ (root.toProgram filename source).body.flatMap Node.elements := by
    rw [← Program.map_node_elements]
    exact List.mem_map_of_mem member
  exact (fromTag_of_list (fun c _ => elementsFromTags c) _ inBody).insertOffset?_isSome named

end JsxProvenance.Cst
