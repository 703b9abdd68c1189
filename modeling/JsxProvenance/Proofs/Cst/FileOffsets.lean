import JsxProvenance.Proofs.Cst.Landing

/-! The offsets of the elements of a file. Each lies inside its own tag, behind all that the tag
has, and between the tokens of the file; no two are the same. Attributes are no places to write
into as long as the syntax of their values is never read, which a class whose body is a tag would
do.
-/

namespace JsxProvenance.Cst

open Ast

/-- Attributes stand only in tags, and the tree is none. -/
structure AttributesInTags (root : Cst) : Prop where
  confined : root.Confined false
  noAttribute : root.kind ≠ "jsx_attribute"

/-- The root of the tree and the bodies of its classes are no JSX, so that each tag makes an
element.
-/
structure TagsMakeElements (root : Cst) : Prop where
  noJsx : ¬ root.IsJsx
  bodies : root.PlainBodies

variable {strict : Prop} {root : Cst}

/-- The elements of a file land in its root. -/
theorem program_landApart (ready : root.Ready strict false)
    (plain : strict → root.kind ≠ "jsx_attribute") (other : strict → ¬ root.IsJsx)
    (filename : String) (source : List UInt8)
    : LandApart strict source root
        ((root.toProgram filename source).body.flatMap Node.elements) :=
  ChildrenLand.list ready.laid plain
    (.of_smaller ready other fun m _ => syntaxLands m) (root.kind == exportKind)

theorem elements_of_walk {p : Program} {place : Place} (visited : place ∈ p.walk)
    (element : place.node.isElement = true)
    : place.node ∈ p.body.flatMap Node.elements := by
  rw [← p.map_node_elements]
  exact List.mem_map_of_mem (List.mem_filter.mpr ⟨visited, element⟩)

theorem walk_of_elements {p : Program} {e : Node} (member : e ∈ p.body.flatMap Node.elements)
    : ∃ place ∈ p.walk, place.node = e ∧ place.node.isElement = true := by
  rw [← p.map_node_elements] at member
  obtain ⟨place, kept, rfl⟩ := List.mem_map.mp member
  obtain ⟨visited, element⟩ := List.mem_filter.mp kept
  exact ⟨place, visited, rfl, element⟩

/-- The elements of a well laid tree have offsets inside their own tags, behind the names, the
attributes and the spreads of the tags, and inside no childless node; no two have one offset. If
attributes stand only in tags that make elements, no offset is inside an attribute.
-/
theorem toProgram_offsets (laid : root.Laid false) (filename : String) (source : List UInt8)
    : (∀ place ∈ (root.toProgram filename source).walk,
        place.node.isElement = true
        → ∃ tag ∈ root.nodes, ∃ offset,
            tag.MakesElement source place.node
            ∧ place.node.insertOffset? = some offset
            ∧ tag.start < offset
            ∧ offset < tag.stop
            ∧ (∀ name, tag.field? "name" = some name → name.stop ≤ offset)
            ∧ (∀ part ∈ tag.parts, isTagAttribute part = true → part.stop ≤ offset)
            ∧ (∀ n ∈ root.nodes, n.children = [] → ¬ (n.start < offset ∧ offset < n.stop))
            ∧ (root.AttributesInTags
              → root.TagsMakeElements
              → ∀ n ∈ root.nodes,
                  n.kind = "jsx_attribute" → ¬ (n.start < offset ∧ offset < n.stop)))
      ∧ ∀ p ∈ (root.toProgram filename source).walk,
          ∀ q ∈ (root.toProgram filename source).walk,
            p.node.isElement = true
            → q.node.isElement = true
            → p.node.insertOffset? = q.node.insertOffset?
            → p = q := by
  have landed : LandApart False source root
      ((root.toProgram filename source).body.flatMap Node.elements) :=
    program_landApart ⟨laid, nofun, nofun⟩ nofun nofun filename source
  constructor
  · intro place visited element
    have member := elements_of_walk visited element
    obtain ⟨offset, land, _, _⟩ := landed.lands _ member
    obtain ⟨tag, below, made, lower, upper, named, parts⟩ := land.tag
    refine ⟨tag, below, offset, made, land.written, lower, upper, named, parts, ?_, ?_⟩
    · exact fun n inside childless => land.between n inside (Or.inl childless)
    · intro inTags tags n inside kind
      have strictly : LandApart True source root
          ((root.toProgram filename source).body.flatMap Node.elements) :=
        program_landApart ⟨laid, fun _ => inTags.confined, fun _ => tags.bodies⟩
          (fun _ => inTags.noAttribute) (fun _ => tags.noJsx) filename source
      obtain ⟨other, landStrictly, _, _⟩ := strictly.lands _ member
      have same : other = offset := Option.some.inj (landStrictly.written.symm.trans land.written)
      exact same ▸ landStrictly.between n inside (Or.inr ⟨trivial, kind⟩)
  · intro p visitedP q visitedQ elementP elementQ same
    have apart := landed.apart
    rw [← Program.map_node_elements, List.map_map] at apart
    exact List.inj_on_of_nodup_map apart (List.mem_filter.mpr ⟨visitedP, elementP⟩)
      (List.mem_filter.mpr ⟨visitedQ, elementQ⟩) same

/-- The tree of `<a {...<b/>}><c d=""/></a>`. -/
def nested : Cst :=
  .node "program" none true 0 26
    [
      .node "jsx_element" none true 0 26
        [
          .node "jsx_opening_element" (some "open_tag") true 0 13
            [
              .node "identifier" (some "name") true 1 2 [],
              .node "jsx_expression" none true 3 12
                [
                  .node "spread_element" none true 4 11
                    [
                      .node "jsx_self_closing_element" none true 7 11
                        [.node "identifier" (some "name") true 8 9 []]
                    ]
                ]
            ],
          .node "jsx_self_closing_element" none true 13 22
            [
              .node "identifier" (some "name") true 14 15 [],
              .node "jsx_attribute" none true 16 20
                [
                  .node "property_identifier" none true 16 17 [],
                  .node "string" none true 18 20 []
                ]
            ],
          .node "jsx_closing_element" (some "close_tag") true 22 26
            [.node "identifier" (some "name") true 24 25 []]
        ]
    ]

/-- The text of the tree. -/
def nestedText : List UInt8 :=
  Utf8.bytes "<a \x7b...<b/>\x7d><c d=\"\"/></a>"

/-- The tree has three elements, none of which is written to inside the attribute. -/
theorem toProgram_offsets_nested
    : nested.Laid false
      ∧ nested.AttributesInTags
      ∧ nested.TagsMakeElements
      ∧ ((nested.toProgram "" nestedText).body.flatMap Node.elements).map Node.insertOffset?
        = [some 12, some 9, some 20]
      ∧ ∀ place ∈ (nested.toProgram "" nestedText).walk,
          place.node.isElement = true
          → ∃ offset,
              place.node.insertOffset? = some offset
              ∧ ∀ n ∈ nested.nodes,
                  n.kind = "jsx_attribute" → ¬ (n.start < offset ∧ offset < n.stop) := by
  have laid : nested.Laid false := by decide
  have inTags : nested.AttributesInTags := ⟨by decide, by decide⟩
  have tags : nested.TagsMakeElements := ⟨by decide, by decide⟩
  refine ⟨laid, inTags, tags, ?_, ?_⟩
  · change List.map Node.insertOffset? (List.flatMap Node.elements
      [.element _ (.leaf _ _)
        [.group _ _ [.group _ _ [.element _ (.leaf _ _) [] [] true (some 9)]]]
        [.element _ (.leaf _ _) [.leaf _ _] [] true (some 20)] false (some 12)]) = _
    simp [Node.insertOffset?]
  · intro place visited element
    obtain ⟨_, _, offset, _, written, _, _, _, _, _, outside⟩ :=
      (toProgram_offsets laid "" nestedText).1 place visited element
    exact ⟨offset, written, outside inTags tags⟩

/-- The tag `<b c={<d/>}/>` from a byte on. -/
def tagInTag (field : Option String) (i : Nat) : Cst :=
  .node "jsx_self_closing_element" field true i (i + 13)
    [
      .node "identifier" (some "name") true (i + 1) (i + 2) [],
      .node "jsx_attribute" none true (i + 3) (i + 11)
        [
          .node "property_identifier" none true (i + 3) (i + 4) [],
          .node "jsx_expression" none true (i + 5) (i + 11)
            [
              .node "jsx_self_closing_element" none true (i + 6) (i + 10)
                [.node "identifier" (some "name") true (i + 7) (i + 8) []]
            ]
        ]
    ]

/-- The tree of `class A <b c={<d/>}/>`, where the tag is the body of the class. -/
def classOfTag : Cst :=
  .node "program" none true 0 21
    [
      .node "class_declaration" none true 0 21
        [.node "type_identifier" (some "name") true 6 7 [], tagInTag (some "body") 8]
    ]

/-- The offset of some element lies inside an attribute. -/
def WritesInAttribute (source : List UInt8) (root : Cst) : Prop :=
  ∃ place ∈ (root.toProgram "" source).walk,
    place.node.isElement = true
    ∧ ∃ offset,
        place.node.insertOffset? = some offset
        ∧ ∃ n ∈ root.nodes, n.kind = "jsx_attribute" ∧ n.start < offset ∧ offset < n.stop

theorem WritesInAttribute.of_offset {source : List UInt8} (offset : Nat)
    (written
      : some offset
        ∈ ((root.toProgram "" source).body.flatMap Node.elements).map Node.insertOffset?)
    (inside : ∃ n ∈ root.nodes, n.kind = "jsx_attribute" ∧ n.start < offset ∧ offset < n.stop)
    : root.WritesInAttribute source := by
  obtain ⟨e, member, own⟩ := List.mem_map.mp written
  obtain ⟨place, visited, rfl, element⟩ := walk_of_elements member
  exact ⟨place, visited, element, offset, own, inside⟩

/-- The body of a class and the root of a tree are read without regard to their kind. If one is a
tag, its attributes are syntax like any other, and so are the elements in them.
-/
theorem writesInAttribute_of_tag_without_element
    : (classOfTag.Laid false
        ∧ classOfTag.AttributesInTags
        ∧ classOfTag.WritesInAttribute (Utf8.bytes "class A <b c=\x7b<d/>\x7d/>"))
      ∧ (tagInTag none 0).Laid false
      ∧ (tagInTag none 0).AttributesInTags
      ∧ (tagInTag none 0).WritesInAttribute (Utf8.bytes "<b c=\x7b<d/>\x7d/>") := by
  refine ⟨⟨by decide, ⟨by decide, by decide⟩, .of_offset 16 ?_ (by decide)⟩,
    by decide, ⟨by decide, by decide⟩, .of_offset 8 ?_ (by decide)⟩
  · change some 16 ∈ List.map Node.insertOffset? (List.flatMap Node.elements
      [.group _ _
        [.leaf _ _,
          .group _ _
            [.leaf _ _, .wrap _ _ (.element _ (.leaf _ _) [] [] true (some 16))]]])
    simp [Node.insertOffset?]
  · change some 8 ∈ List.map Node.insertOffset? (List.flatMap Node.elements
      [.leaf _ _,
        .group _ _
          [.leaf _ _, .wrap _ _ (.element _ (.leaf _ _) [] [] true (some 8))]])
    simp [Node.insertOffset?]

end JsxProvenance.Cst
