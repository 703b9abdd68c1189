import JsxProvenance.Proofs.Cst.Layout
import JsxProvenance.Proofs.Tree.Elements

/-! Which elements the syntax of a concrete node has: those of the syntax of some of its children,
and of some grandchildren, and one of its own for each tag. The readers of lists are filters and
searches, so each child is read at most once.
-/

namespace JsxProvenance.Cst

open Ast

-----------------------------------------------------------------------------------------
-- Kinds
-----------------------------------------------------------------------------------------

/-- The kinds of each construct. All that have no form of their own are of the last one. -/
def kindsOf : Construct → List String
  | .name => nameKinds
  | .importStatement => ["import_statement"]
  | .variableDeclaration => ["lexical_declaration", "variable_declaration"]
  | .declarator => ["variable_declarator"]
  | .objectPattern => ["object_pattern"]
  | .functionStatement => ["function_declaration"]
  | .arrow => ["arrow_function"]
  | .classStatement => ["class_declaration", "abstract_class_declaration"]
  | .classExpression => ["class"]
  | .method => ["method_definition"]
  | .block => ["statement_block"]
  | .returnStatement => ["return_statement"]
  | .parentheses => ["parenthesized_expression"]
  | .conditional => ["ternary_expression"]
  | .member => ["member_expression"]
  | .string => ["string"]
  | .element => ["jsx_element"]
  | .selfClosingElement => ["jsx_self_closing_element"]
  | .jsxText => ["jsx_text"]
  | .jsxExpression => ["jsx_expression"]
  | .other => []

theorem mem_kindsOf {kind : String} (own : Construct.ofKind kind ≠ .other)
    : kind ∈ kindsOf (Construct.ofKind kind) := by
  have either : Construct.ofKind kind = .other ∨ kind ∈ kindsOf (Construct.ofKind kind) := by
    unfold Construct.ofKind
    split
    · next name => exact Or.inr name
    · split <;> first | exact Or.inl rfl | exact Or.inr (by simp [kindsOf])
  exact either.resolve_left own

/-- The kind of a construct that has just one. -/
theorem kind_of_single {kind single : String} {construct : Construct}
    (same : Construct.ofKind kind = construct) (kinds : kindsOf construct = [single])
    : kind = single := by
  have own : Construct.ofKind kind ≠ .other := by
    rintro other
    rw [← same, other] at kinds
    cases kinds
  have member := mem_kindsOf own
  rw [same, kinds] at member
  exact List.mem_singleton.mp member

/-- What a construct tells about the kind of a node. -/
def Tells : Construct → String → Prop
  | .element, kind => kind = "jsx_element"
  | .selfClosingElement, kind => kind = "jsx_self_closing_element"
  | .declarator, kind => kind = "variable_declarator"
  | .conditional, kind => kind = "ternary_expression"
  | .classStatement, kind | .classExpression, kind =>
      kind ∈ ["class", "class_declaration", "abstract_class_declaration"]
  | _, _ => True

theorem kind_of_construct {kind : String} {construct : Construct}
    (same : Construct.ofKind kind = construct)
    : Tells construct kind := by
  by_cases own : construct = .other
  · rw [own]
    trivial
  · have member := mem_kindsOf (same.trans_ne own)
    rw [same] at member
    cases construct with
    | element | selfClosingElement | declarator | conditional => exact List.mem_singleton.mp member
    | classStatement => exact List.mem_cons_of_mem _ member
    | classExpression => exact List.mem_cons.mpr (Or.inl (List.mem_singleton.mp member))
    | _ => trivial

variable (source : List UInt8)

-----------------------------------------------------------------------------------------
-- The readers of lists
-----------------------------------------------------------------------------------------

theorem listToAst_eq (exported : Bool) (ns : List Cst)
    : listToAst source exported ns = (ns.filter isStructural).map (toAst source exported) := by
  induction ns with
  | nil => rfl
  | cons n rest ih => cases h : n.isStructural <;> simp [listToAst, h, ih]

theorem firstToAst_eq (ns : List Cst)
    : firstToAst source ns
      = ((ns.find? isStructural).map (toAst source false)).getD .absent := by
  induction ns with
  | nil => rfl
  | cons n rest ih => cases h : n.isStructural <;> simp [firstToAst, h, ih]

theorem fieldToAst_eq (name : String) (ns : List Cst)
    : fieldToAst source name ns
      = ((ns.find? (·.field == some name)).map (toAst source false)).getD .absent := by
  induction ns with
  | nil => rfl
  | cons n rest ih => cases h : n.field == some name <;> simp [fieldToAst, h, ih]

theorem declaratorsToAst_eq (ns : List Cst)
    : declaratorsToAst source ns
      = (ns.filter fun n => n.isStructural && n.kind == "variable_declarator").map
          (toAst source false) := by
  induction ns with
  | nil => rfl
  | cons n rest ih =>
      cases h : n.isStructural && n.kind == "variable_declarator" <;>
        simp only [declaratorsToAst, h, ih, List.filter_cons] <;>
        rfl

theorem membersToAst_eq (ns : List Cst)
    : membersToAst source ns
      = ((ns.find? (·.field == some "body")).map fun body =>
          listToAst source (body.kind == exportKind) body.children).getD [] := by
  induction ns with
  | nil => rfl
  | cons n rest ih =>
      cases n with
      | node kind field named start stop children =>
          cases h : field == some "body" <;>
            simp [membersToAst, Cst.field, Cst.kind, Cst.children, h, ih]

/-- Whether a child of an element stands between its tags. -/
def isContent (n : Cst) : Bool :=
  n.isStructural && n.kind != "jsx_opening_element" && n.kind != "jsx_closing_element"

theorem contentToAst_eq (ns : List Cst)
    : contentToAst source ns = (ns.filter isContent).map (toAst source false) := by
  induction ns with
  | nil => rfl
  | cons n rest ih =>
      cases h : n.isContent <;> rw [isContent] at h <;>
        simp only [contentToAst, isContent, h, ih, List.filter_cons] <;>
        rfl

/-- The syntax of an attribute or a spread in a tag. -/
def tagPartToAst (n : Cst) : Node :=
  if n.kind = "jsx_attribute" then toAttribute source n
  else .group (n.position source) (.opaqueNode n.kind) (listToAst source false n.children)

theorem attributesToAst_eq (ns : List Cst)
    : attributesToAst source ns
      = ((ns.filter isStructural).filter isTagAttribute).map (tagPartToAst source) := by
  induction ns with
  | nil => rfl
  | cons n rest ih =>
      cases n with
      | node kind field named start stop children =>
          rw [attributesToAst, ih]
          cases part : isStructural (.node kind field named start stop children) with
          | false => simp [part]
          | true =>
              rw [List.filter_cons_of_pos part]
              by_cases attr : kind = "jsx_attribute"
              · subst attr
                rfl
              · by_cases spread : kind = "jsx_expression"
                · subst spread
                  rfl
                · rw [List.filter_cons_of_neg (by simp [isTagAttribute, Cst.kind, attr, spread])]
                  simp [attr, spread]

theorem openTagToAst_eq (ns : List Cst)
    : openTagToAst source ns
      = ((ns.find? (·.field == some "open_tag")).map fun tag =>
          attributesToAst source tag.children).getD [] := by
  induction ns with
  | nil => rfl
  | cons n rest ih =>
      cases n with
      | node kind field named start stop children =>
          cases h : field == some "open_tag" <;>
            simp [openTagToAst, Cst.field, Cst.children, h, ih]

theorem fieldToTagName_eq (name : String) (ns : List Cst)
    : fieldToTagName source name ns
      = ((ns.find? (·.field == some name)).map (toTagName source)).getD .absent := by
  induction ns with
  | nil => rfl
  | cons n rest ih => cases h : n.field == some name <;> simp [fieldToTagName, h, ih]

theorem firstToTagName_eq (ns : List Cst)
    : firstToTagName source ns = ((ns.find? isStructural).map (toTagName source)).getD .absent := by
  induction ns with
  | nil => rfl
  | cons n rest ih => cases h : n.isStructural <;> simp [firstToTagName, h, ih]

-----------------------------------------------------------------------------------------
-- Syntax without elements
-----------------------------------------------------------------------------------------

/-- What one node may give has the elements of the node's syntax. -/
theorem elements_getD_map (f : Cst → Node) (n? : Option Cst)
    : ((n?.map f).getD .absent).elements = n?.toList.flatMap fun n => (f n).elements := by
  cases n? <;> simp

/-- A tag name has no elements, by induction on size. -/
theorem elements_toTagName (n : Cst) : (toTagName source n).elements = [] := by
  have found {f : Cst → Bool} {ns : List Cst}
      (bare : ∀ c ∈ ns, (toTagName source c).elements = [])
      : (((ns.find? f).map (toTagName source)).getD .absent).elements = [] := by
    cases h : ns.find? f with
    | none => simp
    | some c => exact bare c (List.mem_of_find?_eq_some h)
  induction n using sizeInduction with
  | step n ih =>
      have below (c : Cst) (child : c ∈ n.children) := ih c (sizeOf_lt_of_child child)
      cases n with
      | node kind field named start stop children =>
          rw [toTagName]
          split
          · exact Node.elements_leaf _ _
          · split
            · split <;> simp
            · split
              · split
                · rw [Node.elements_wrap, fieldToTagName_eq]
                  exact found below
                · split
                  · rw [Node.elements_wrap, firstToTagName_eq]
                    exact found below
                  · exact Node.elements_absent
              · exact Node.elements_absent

theorem elements_tagName (n? : Option Cst)
    : ((n?.map (toTagName source)).getD .absent).elements = [] := by
  rw [elements_getD_map]
  simp [elements_toTagName]

theorem elements_toImport (n : Cst) : (toImport source n).elements = [] := by
  have specifier (n : Cst) : (toNamedSpecifier source n).elements = [] := Node.elements_leaf _ _
  have part (n : Cst) : (toSpecifiers source n).flatMap Node.elements = [] := by
    rw [toSpecifiers]
    split
    · simp
    · split <;> simp
    · simp [List.flatMap_map, specifier]
    · rfl
  simp only [toImport, Node.elements_group, List.flatMap_assoc, part, List.flatMap_eq_nil_iff]
  intros
  trivial

theorem elements_objectPattern (ns : List Cst)
    : (ns.filterMap (toProperty? source)).flatMap Node.elements = [] := by
  apply List.flatMap_eq_nil_iff.mpr
  intro entry member
  obtain ⟨n, _, made⟩ := List.mem_filterMap.mp member
  rw [toProperty?] at made
  split at made
  · cases made
    exact Node.elements_leaf _ _
  · cases made
    exact Node.elements_leaf _ _
  · cases made

-----------------------------------------------------------------------------------------
-- Tags
-----------------------------------------------------------------------------------------

/-- Whether a part of a tag is a spread. -/
def isSpread (n : Cst) : Bool :=
  n.isStructural && n.kind == "jsx_expression"

/-- The elements among the attributes of a tag are those inside its spreads. -/
theorem elements_attributesToAst (ns : List Cst)
    : (attributesToAst source ns).flatMap Node.elements
      = (ns.filter isSpread).flatMap fun n =>
          (listToAst source false n.children).flatMap Node.elements := by
  induction ns with
  | nil => rfl
  | cons n rest ih =>
      cases n with
      | node kind field named start stop children =>
          rw [attributesToAst]
          split
          · next written =>
              have other : isSpread (.node kind field named start stop children) = false := by
                have := eq_of_beq (Bool.and_eq_true_iff.mp written).2
                simp [isSpread, Cst.kind, this]
              rw [List.filter_cons_of_neg (by simp [other]), List.flatMap_cons, ih, toAttribute,
                Node.elements_leaf, List.nil_append]
          · split
            · next spread =>
                rw [List.filter_cons_of_pos (by exact spread), List.flatMap_cons,
                  List.flatMap_cons, ih, Node.elements_group]
                rfl
            · next spread =>
                rw [List.filter_cons_of_neg (by exact spread), ih]

-----------------------------------------------------------------------------------------
-- The syntax of JSX
-----------------------------------------------------------------------------------------

variable {n tag name : Cst}

/-- A self-closing tag is an element that has what the tag has. -/
theorem toAst_of_selfClosing (exported : Bool) (kind : n.kind = "jsx_self_closing_element")
    : toAst source exported n
      = .element (n.position source) (((n.field? "name").map (toTagName source)).getD .absent)
          (attributesToAst source n.children) [] true n.insertOffset := by
  cases n
  cases kind
  rfl

/-- An element without a name in its opening tag is a fragment. -/
theorem toAst_of_nameless (exported : Bool) (element : n.kind = "jsx_element")
    (nameless : ∀ tag, n.field? "open_tag" = some tag → tag.field? "name" = none)
    : toAst source exported n
      = .group (n.position source) .jsxFragment (contentToAst source n.children) := by
  cases opens : n.field? "open_tag" with
  | none =>
      cases n
      cases element
      simp only [toAst, opens]
      rfl
  | some tag =>
      have named := nameless tag opens
      cases n
      cases element
      simp only [toAst, opens, named]
      rfl

/-- An element with a name in its opening tag has what the tag has. -/
theorem toAst_of_name (exported : Bool) (element : n.kind = "jsx_element")
    (opens : n.field? "open_tag" = some tag) (named : tag.field? "name" = some name)
    : toAst source exported n
      = .element (tag.position source) (name.toTagName source)
          (attributesToAst source tag.children) (contentToAst source n.children) false
          tag.insertOffset := by
  have attributes : openTagToAst source n.children = attributesToAst source tag.children := by
    rw [openTagToAst_eq, show n.children.find? (·.field == some "open_tag") = some tag from opens]
    rfl
  rw [← attributes]
  cases n
  cases element
  simp only [toAst, opens, named]
  rfl

end JsxProvenance.Cst
