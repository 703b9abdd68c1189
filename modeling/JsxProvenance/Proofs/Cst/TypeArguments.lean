import JsxProvenance.Proofs.Cst.Offsets

/-! Tags with type arguments. New attributes are written at the end of the last attribute of a tag,
and at the end of the name of a tag that has none. They stand behind the type arguments if the
tag has an attribute, and else before them.
-/

namespace JsxProvenance.Cst

open Ast

/-- The parts of a tag as a grammar makes them: a name, type arguments if some are given, and the
attributes and spreads. They follow one another, and comments can stand anywhere.
-/
structure TagParts (tag name : Cst) (types : Option Cst) (attributes : List Cst) : Prop where
  listed : tag.parts = name :: (types.toList ++ attributes)
  ordered : tag.parts.Pairwise fun c d => c.stop ≤ d.start
  ranges : ∀ part ∈ tag.parts, part.start ≤ part.stop
  filled : tag.field? "name" = some name
  plain : isTagAttribute name = false
  typed : ∀ t ∈ types, t.kind = "type_arguments"
  given : ∀ part ∈ attributes, isTagAttribute part = true

/-- A node is written with a tag: it is a self-closing tag, or an element with this opening tag. -/
def WrittenWith (n tag : Cst) : Prop :=
  n = tag ∧ n.kind = "jsx_self_closing_element"
  ∨ n.kind = "jsx_element" ∧ n.field? "open_tag" = some tag

section

variable {n tag name : Cst} {types : Option Cst} {attributes : List Cst}

/-- The syntax of a node has the offset of the tag that the node is written with. -/
theorem insertOffset?_toAst (written : n.WrittenWith tag) (named : tag.field? "name" = some name)
    (source : List UInt8) (exported : Bool)
    : (toAst source exported n).insertOffset? = tag.insertOffset := by
  rcases written with ⟨rfl, selfClosing⟩ | ⟨element, opens⟩
  · cases n
    cases selfClosing
    rfl
  · rw [toAst_of_name source exported element opens named]
    rfl

namespace TagParts

/-- The last attribute of a tag, or else its name. -/
abbrev last (name : Cst) (attributes : List Cst) : Cst :=
  (name :: attributes).getLast (List.cons_ne_nil name attributes)

theorem filter_parts (shape : tag.TagParts name types attributes)
    : tag.parts.filter isTagAttribute = attributes := by
  have untyped : types.toList.filter isTagAttribute = [] := by
    rw [List.filter_eq_nil_iff]
    intro t member
    simp [isTagAttribute, shape.typed t (Option.mem_toList.mp member)]
  rw [shape.listed, List.filter_cons_of_neg (by simp [shape.plain]), List.filter_append, untyped,
    List.filter_eq_self.mpr shape.given, List.nil_append]

/-- The name and the attributes of a tag end with the last of them. -/
theorem stop_le_last (shape : tag.TagParts name types attributes) {part : Cst}
    (member : part ∈ name :: attributes)
    : part.stop ≤ (last name attributes).stop := by
  have sublist : (name :: attributes).Sublist tag.parts := by
    rw [shape.listed]
    exact (List.sublist_append_right _ _).cons_cons name
  have split := List.dropLast_append_getLast (List.cons_ne_nil name attributes)
  have ordered := shape.ordered.sublist sublist
  have range := shape.ranges (last name attributes)
    (sublist.subset (List.getLast_mem (List.cons_ne_nil name attributes)))
  rw [← split] at ordered member
  rcases List.mem_append.mp member with earlier | same
  · have before := (List.pairwise_append.mp ordered).2.2 part earlier _ (List.mem_singleton_self _)
    exact Nat.le_trans before range
  · exact Nat.le_of_eq (congrArg stop (List.mem_singleton.mp same))

/-- New attributes are written at the end of the last attribute, or else of the name. -/
theorem insertOffset_eq (shape : tag.TagParts name types attributes)
    : tag.insertOffset = some (last name attributes).stop := by
  obtain ⟨offset, folded, chosen, above, all⟩ := foldl_max_spec attributes name.stop
  rw [insertOffset, shape.filter_parts, shape.filled]
  refine folded.trans (congrArg some (Nat.le_antisymm ?_ ?_))
  · rcases chosen with rfl | ⟨part, member, rfl⟩
    · exact shape.stop_le_last List.mem_cons_self
    · exact shape.stop_le_last (List.mem_cons_of_mem name member)
  · rcases List.mem_cons.mp (List.getLast_mem (List.cons_ne_nil name attributes)) with first | later
    · rw [last, first]
      exact above
    · exact all _ later

/-- If a tag has an attribute, its type arguments end before the last one. -/
theorem stop_typeArguments_le (shape : tag.TagParts name types attributes) {t : Cst}
    (typed : t ∈ types) (given : attributes ≠ [])
    : t.stop ≤ (last name attributes).stop := by
  obtain rfl : types = some t := typed
  obtain ⟨first, rest, rfl⟩ := List.exists_cons_of_ne_nil given
  have listed : tag.parts = name :: t :: first :: rest := shape.listed
  have ordered := shape.ordered
  rw [listed] at ordered
  have before : t.stop ≤ first.start :=
    (List.pairwise_cons.mp (List.pairwise_cons.mp ordered).2).1 first List.mem_cons_self
  have range : first.start ≤ first.stop := shape.ranges first (by simp [listed])
  have final := shape.stop_le_last (List.mem_cons_of_mem name List.mem_cons_self)
  omega

/-- The type arguments of a tag start behind its name. -/
theorem stop_name_le (shape : tag.TagParts name types attributes) {t : Cst} (typed : t ∈ types)
    : name.stop ≤ t.start := by
  have ordered := shape.ordered
  rw [shape.listed] at ordered
  refine (List.pairwise_cons.mp ordered).1 t (List.mem_append_left _ ?_)
  exact Option.mem_toList.mpr typed

end TagParts

/-- Where new attributes of a tag are written: at the end of its last attribute, or else of its
name. That is behind all parts of the tag if it has no type arguments or has an attribute. In a
tag without attributes it is before the type arguments.
-/
theorem insertOffset_of_tagParts (shape : tag.TagParts name types attributes)
    (written : n.WrittenWith tag) (source : List UInt8) (exported : Bool)
    : ∃ offset,
        (toAst source exported n).insertOffset? = some offset
        ∧ offset = ((name :: attributes).getLast (List.cons_ne_nil name attributes)).stop
        ∧ (types = none ∨ attributes ≠ [] → ∀ part ∈ tag.parts, part.stop ≤ offset)
        ∧ (attributes = [] → ∀ t ∈ types, offset ≤ t.start) := by
  refine ⟨_, ?_, rfl, ?_, ?_⟩
  · rw [insertOffset?_toAst written shape.filled, shape.insertOffset_eq]
  · intro plain part member
    rw [shape.listed, List.mem_cons, List.mem_append, Option.mem_toList] at member
    rcases member with rfl | typed | given
    · exact shape.stop_le_last List.mem_cons_self
    · refine shape.stop_typeArguments_le typed (plain.resolve_left ?_)
      rintro rfl
      cases typed
    · exact shape.stop_le_last (List.mem_cons_of_mem name given)
  · rintro rfl t typed
    exact shape.stop_name_le typed

end

-----------------------------------------------------------------------------------------
-- A tag with type arguments
-----------------------------------------------------------------------------------------

/-- The name in `<B<C> d/>`. -/
def typedName : Cst :=
  .node "identifier" (some "name") true 1 2 []

/-- The type arguments in `<B<C> d/>`. -/
def typedArguments : Cst :=
  .node "type_arguments" (some "type_arguments") true 2 5 [.node "type_identifier" none true 3 4 []]

/-- The attribute in `<B<C> d/>`. -/
def typedAttribute : Cst :=
  .node "jsx_attribute" (some "attribute") true 6 7 [.node "property_identifier" none true 6 7 []]

/-- The tag `<B<C> d/>`, or one with other attributes. -/
def typedTag (attributes : List Cst) : Cst :=
  .node "jsx_self_closing_element" none true 0 9
    (.node "<" none false 0 1 [] :: typedName :: typedArguments :: attributes
      ++ [.node "/>" none false 7 9 []])

/-- The text behind the attribute of the tag is behind its type arguments too. -/
theorem insertOffset_of_tagParts_typedTag
    : (toAst [] false (typedTag [typedAttribute])).insertOffset? = some 7
      ∧ ∀ part ∈ (typedTag [typedAttribute]).parts, part.stop ≤ 7 := by
  have shape
      : (typedTag [typedAttribute]).TagParts typedName (some typedArguments) [typedAttribute] :=
    { listed := rfl
      ordered := by decide
      ranges := by decide
      filled := rfl
      plain := rfl
      typed := fun _ typed => Option.some.inj typed ▸ rfl
      given := by decide }
  obtain ⟨offset, recorded, rfl, behind, _⟩ :=
    insertOffset_of_tagParts shape (Or.inl ⟨rfl, rfl⟩) [] false
  exact ⟨recorded, behind (Or.inr (List.cons_ne_nil _ _))⟩

/-- In a tag without attributes the offset is not behind the type arguments. -/
theorem insertOffset_before_typeArguments
    : ¬ ∀ (n tag name : Cst) (types : Option Cst) (attributes : List Cst) (source : List UInt8)
        (exported : Bool),
          tag.TagParts name types attributes
          → n.WrittenWith tag
          → ∃ offset,
              (toAst source exported n).insertOffset? = some offset
              ∧ ∀ part ∈ tag.parts, part.stop ≤ offset := by
  intro allBehind
  have shape : (typedTag []).TagParts typedName (some typedArguments) [] :=
    { listed := rfl
      ordered := by decide
      ranges := by decide
      filled := rfl
      plain := rfl
      typed := fun _ typed => Option.some.inj typed ▸ rfl
      given := nofun }
  obtain ⟨offset, recorded, behind⟩ :=
    allBehind _ _ _ _ _ [] false shape (Or.inl ⟨rfl, rfl⟩)
  obtain rfl : 2 = offset := Option.some.inj recorded
  exact absurd (behind typedArguments (by simp [shape.listed])) (by decide)

end JsxProvenance.Cst
