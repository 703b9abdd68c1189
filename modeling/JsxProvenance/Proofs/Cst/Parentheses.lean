import Mathlib.Logic.Relation
import JsxProvenance.Proofs.Cst.Comments

/-! Parentheses are not seen. A node that is converted can be put in parentheses, since the syntax of
these is that of the one node in them. For a node further down this needs all ways in which the nodes
above it are read: as what is converted, as a declarator, as the body of a class, as a tag or as a
spread.
-/

namespace JsxProvenance

open Ast

/-- The fields of a construct whose nodes are converted. -/
def Construct.convertedFields : Construct → List String
  | .declarator => ["name", "value"]
  | .functionStatement | .arrow | .method => ["body"]
  | .conditional => ["condition", "consequence", "alternative"]
  | .member => ["object"]
  | _ => []

namespace Cst

-----------------------------------------------------------------------------------------
-- Ways to read a node
-----------------------------------------------------------------------------------------

/-- A way to read a concrete node. -/
inductive Reading where
  /-- The node is converted, below an export or elsewhere. -/
  | converted (exported : Bool)
  /-- The node is one of a declaration. -/
  | declarator
  /-- The node itself is not converted, but its parts are: the body of a class, or a whole file. -/
  | body
  /-- The node has the name and the attributes of an element. -/
  | tag
  /-- The node is a spread in a tag. -/
  | spread

/-- A node is the first of its siblings that fills a field. -/
def Fills (before : List Cst) (n : Cst) (name : String) : Prop :=
  n.field = some name ∧ ∀ c ∈ before, c.field ≠ some name

/-- A node of a kind that is read in one way reads a child, which stands behind some others, in
another way.
-/
inductive Reads : Reading → String → List Cst → Cst → Reading → Prop
  | part {exported : Bool} {kind : String} {before : List Cst} {n : Cst}
    (construct : Construct.ofKind kind ∈ [.block, .parentheses, .other])
    (structural : n.isStructural = true)
    : Reads (.converted exported) kind before n (.converted (kind == exportKind))
  | classPart {kind : String} {before : List Cst} {n : Cst}
    (construct : Construct.ofKind kind = .classExpression) (structural : n.isStructural = true)
    : Reads (.converted false) kind before n (.converted false)
  | first {exported : Bool} {kind : String} {before : List Cst} {n : Cst}
    (construct : Construct.ofKind kind ∈ [.returnStatement, .jsxExpression])
    (structural : n.isStructural = true) (leading : ∀ c ∈ before, c.isStructural = false)
    : Reads (.converted exported) kind before n (.converted false)
  | field {exported : Bool} {kind name : String} {before : List Cst} {n : Cst}
    (listed : name ∈ (Construct.ofKind kind).convertedFields) (fills : n.Fills before name)
    : Reads (.converted exported) kind before n (.converted false)
  | declaration {exported : Bool} {kind : String} {before : List Cst} {n : Cst}
    (construct : Construct.ofKind kind = .variableDeclaration) (structural : n.isStructural = true)
    (declarator : n.kind = "variable_declarator")
    : Reads (.converted exported) kind before n .declarator
  | declarator {kind : String} {before : List Cst} {n : Cst} {r : Reading}
    (reads : Reads (.converted false) kind before n r)
    : Reads .declarator kind before n r
  | classBody {exported : Bool} {kind : String} {before : List Cst} {n : Cst}
    (construct
      : Construct.ofKind kind = .classStatement
        ∨ Construct.ofKind kind = .classExpression ∧ exported = true)
    (fills : n.Fills before "body")
    : Reads (.converted exported) kind before n .body
  | bodyPart {kind : String} {before : List Cst} {n : Cst} (structural : n.isStructural = true)
    : Reads .body kind before n (.converted (kind == exportKind))
  | content {exported : Bool} {kind : String} {before : List Cst} {n : Cst}
    (construct : Construct.ofKind kind = .element) (isContent : n.isContent = true)
    : Reads (.converted exported) kind before n (.converted false)
  | openTag {exported : Bool} {kind : String} {before : List Cst} {n : Cst}
    (construct : Construct.ofKind kind = .element) (fills : n.Fills before "open_tag")
    : Reads (.converted exported) kind before n .tag
  | selfClosing {exported : Bool} {kind : String} {before : List Cst} {n : Cst}
    (construct : Construct.ofKind kind = .selfClosingElement) (isSpread : n.isSpread = true)
    : Reads (.converted exported) kind before n .spread
  | spread {kind : String} {before : List Cst} {n : Cst} (isSpread : n.isSpread = true)
    : Reads .tag kind before n .spread
  | spreadPart {kind : String} {before : List Cst} {n : Cst} (structural : n.isStructural = true)
    : Reads .spread kind before n (.converted false)

/-- A node that is read in two ways: it is the open tag of an element, and it stands among what is
between the tags, since its kind is not that of a tag. All other nodes are read in one way.
-/
def ReadTwice (kind : String) (before : List Cst) (n : Cst) : Prop :=
  Construct.ofKind kind = .element ∧ n.isContent = true ∧ n.Fills before "open_tag"

/-- The node in another field, or in none. -/
def withField (field? : Option String) : Cst → Cst
  | node kind _ named start stop children => node kind field? named start stop children

/-- Two nodes that are read as tags hold the same: neither has a name, or they have the same name and
the same attributes.
-/
def SameTag (n m : Cst) : Prop :=
  m.field? "name" = n.field? "name"
  ∧ (n.field? "name" ≠ none →
      m.start = n.start ∧ m.parts.filter isTagAttribute = n.parts.filter isTagAttribute)

/-- A node that is converted was put in parentheses, somewhere in a tree that is read in some way.
The parentheses fill the field of the node. A class that stands directly in an export is left out,
and so are comments and tokens without a name of their own. Where a node above is read in two ways,
the node in parentheses is converted in both, or the tag holds the same.
-/
inductive Wraps : Reading → Cst → Cst → Prop
  | here {exported : Bool} {n : Cst} {field? : Option String} {start stop : Nat}
    (structural : n.isStructural = true) (other : exported = true → n.kind ≠ "class")
    : Wraps (.converted exported) n
        (.node "parenthesized_expression" n.field true start stop [n.withField field?])
  | inside {r way : Reading} {kind : String} {field : Option String} {named : Bool}
    {start stop : Nat} {before after : List Cst} {n m : Cst} (reads : Reads r kind before n way)
    (wraps : Wraps way n m)
    (content : n.ReadTwice kind before → Wraps (.converted false) n m)
    (tag : n.ReadTwice kind before → ¬ SameTag n m → Wraps .tag n m)
    : Wraps r (.node kind field named start stop (before ++ n :: after))
        (.node kind field named start stop (before ++ m :: after))

-----------------------------------------------------------------------------------------
-- What is seen of a node from outside
-----------------------------------------------------------------------------------------

variable {source : List UInt8} {r : Reading} {n m : Cst} (before after : List Cst)

theorem Wraps.field_eq (wraps : Wraps r n m) : m.field = n.field := by
  cases wraps <;> rfl

theorem Wraps.isStructural_eq (wraps : Wraps r n m) : m.isStructural = n.isStructural := by
  cases wraps with
  | here structural _ =>
      rw [structural]
      rfl
  | inside => rfl

/-- Only nodes that are converted are put in parentheses themselves. -/
theorem Wraps.same (wraps : Wraps r n m) (unconverted : ∀ exported, r ≠ .converted exported)
    : m.kind = n.kind ∧ m.start = n.start ∧ m.stop = n.stop := by
  cases wraps with
  | here => exact absurd rfl (unconverted _)
  | inside => exact ⟨rfl, rfl, rfl⟩

/-- What stands between the tags of an element still does. -/
theorem Wraps.isContent_eq (wraps : Wraps r n m) (isContent : n.isContent = true)
    : m.isContent = true := by
  cases wraps with
  | here => rfl
  | inside => exact isContent

-----------------------------------------------------------------------------------------
-- One child replaced
-----------------------------------------------------------------------------------------

theorem map_filter_replace {α : Type} {keep : Cst → Bool} {f : Cst → α} (kept : keep m = keep n)
    (same : keep n = true → f m = f n)
    : ((before ++ m :: after).filter keep).map f = ((before ++ n :: after).filter keep).map f := by
  cases taken : keep n with
  | false => simp [taken, kept]
  | true => simp [taken, kept, same taken]

theorem map_find?_replace {α : Type} {keep : Cst → Bool} {f : Cst → α} (kept : keep m = keep n)
    (same : keep n = true → (∀ c ∈ before, keep c = false) → f m = f n)
    : ((before ++ m :: after).find? keep).map f = ((before ++ n :: after).find? keep).map f := by
  rw [List.find?_append, List.find?_append]
  cases found : before.find? keep with
  | some c => rfl
  | none =>
      have leading (c : Cst) (member : c ∈ before) : keep c = false := by
        simpa using List.find?_eq_none.mp found c member
      cases taken : keep n with
      | false => simp [taken, kept]
      | true => simp [taken, kept, same taken leading]

/-- A search for a field, where the nodes that stand in one place fill the same field. -/
theorem map_field_replace {α : Type} (name : String) {f : Cst → α} (fields : m.field = n.field)
    (same : n.Fills before name → f m = f n)
    : ((before ++ m :: after).find? (·.field == some name)).map f
      = ((before ++ n :: after).find? (·.field == some name)).map f := by
  refine map_find?_replace before after (by rw [fields]) fun fills leading =>
    same ⟨eq_of_beq fills, ?_⟩
  intro c member
  simpa using leading c member

theorem listToAst_replace {exported : Bool} (structural : m.isStructural = n.isStructural)
    (same : n.isStructural = true → toAst source exported m = toAst source exported n)
    : listToAst source exported (before ++ m :: after)
      = listToAst source exported (before ++ n :: after) := by
  rw [listToAst_eq, listToAst_eq, map_filter_replace before after structural same]

theorem firstToAst_replace (structural : m.isStructural = n.isStructural)
    (same : toAst source false m = toAst source false n)
    : firstToAst source (before ++ m :: after) = firstToAst source (before ++ n :: after) := by
  rw [firstToAst_eq, firstToAst_eq, map_find?_replace before after structural fun _ _ => same]

theorem fieldToAst_replace (fields : m.field = n.field)
    (same : toAst source false m = toAst source false n) (name : String)
    : fieldToAst source name (before ++ m :: after)
      = fieldToAst source name (before ++ n :: after) := by
  rw [fieldToAst_eq, fieldToAst_eq, map_field_replace before after name fields fun _ => same]

-----------------------------------------------------------------------------------------
-- Tags
-----------------------------------------------------------------------------------------

/-- The syntax of an element with a tag and some content, a fragment if the tag has no name. -/
def tagToAst (source : List UInt8) (tag : Cst) (p : Position) (content : List Node) : Node :=
  match tag.field? "name" with
  | some name =>
      .element (tag.position source) (name.toTagName source) (attributesToAst source tag.children)
        content false tag.insertOffset
  | none => .group p .jsxFragment content

theorem toAst_of_element (source : List UInt8) (exported : Bool) (element : n.kind = "jsx_element")
    : toAst source exported n
      = ((n.field? "open_tag").map fun tag =>
          tagToAst source tag (n.position source) (contentToAst source n.children)).getD
            (.group (n.position source) .jsxFragment (contentToAst source n.children)) := by
  by_cases nameless : ∀ tag, n.field? "open_tag" = some tag → tag.field? "name" = none
  · rw [toAst_of_nameless source exported element nameless]
    cases opens : n.field? "open_tag" with
    | none => rfl
    | some tag => rw [Option.map_some, Option.getD_some, tagToAst, nameless tag opens]
  · push Not at nameless
    obtain ⟨tag, opens, name⟩ := nameless
    obtain ⟨name, named⟩ := Option.ne_none_iff_exists'.mp name
    rw [toAst_of_name source exported element opens named, opens, Option.map_some, Option.getD_some,
      tagToAst, named]

theorem insertOffset_congr
    (name : (m.field? "name").map stop = (n.field? "name").map stop)
    (attributes
      : (m.parts.filter isTagAttribute).map stop = (n.parts.filter isTagAttribute).map stop)
    : m.insertOffset = n.insertOffset := by
  have fold (offset : Option Nat) (parts : List Cst)
      : parts.foldl (fun offset c => some (max (offset.getD 0) c.stop)) offset
        = (parts.map stop).foldl (fun offset stop => some (max (offset.getD 0) stop)) offset := by
    rw [List.foldl_map]
  rw [insertOffset, insertOffset, fold, fold, name, attributes]

/-- Tags that hold the same give the same elements. -/
theorem SameTag.tagToAst_eq (same : SameTag n m) (p : Position) (content : List Node)
    : tagToAst source m p content = tagToAst source n p content := by
  rw [tagToAst, tagToAst, same.1]
  cases named : n.field? "name" with
  | none => rfl
  | some name =>
      obtain ⟨start, attributes⟩ := same.2 (by simp [named])
      have offset : m.insertOffset = n.insertOffset :=
        insertOffset_congr (by rw [same.1]) (by rw [attributes])
      have written : attributesToAst source m.children = attributesToAst source n.children := by
        rw [attributesToAst_eq, attributesToAst_eq]
        exact congrArg (List.map (tagPartToAst source)) attributes
      simp only [position, start, offset, written]

/-- Spreads with the same parts, in the same place. -/
structure SameSpread (source : List UInt8) (n m : Cst) : Prop where
  isSpread : n.isSpread = true
  field : m.field = n.field
  named : m.isStructural = n.isStructural
  kind : m.kind = n.kind
  start : m.start = n.start
  stop : m.stop = n.stop
  parts : listToAst source false m.children = listToAst source false n.children

section

variable (same : SameSpread source n m)

include same

/-- A spread has no tag name. -/
theorem SameSpread.toTagName_eq : toTagName source m = toTagName source n := by
  have absent (c : Cst) (kind : c.kind = "jsx_expression") : toTagName source c = .absent := by
    cases c
    cases kind
    rw [toTagName]
    rfl
  have kind : n.kind = "jsx_expression" := eq_of_beq (Bool.and_eq_true_iff.mp same.isSpread).2
  rw [absent n kind, absent m (same.kind.trans kind)]

theorem SameSpread.isTagAttribute_eq : m.isTagAttribute = n.isTagAttribute := by
  rw [isTagAttribute, isTagAttribute, same.kind]

theorem SameSpread.name_replace {α : Type} {f : Cst → α} (agree : f m = f n) (name : String)
    : ((before ++ m :: after).find? (·.field == some name)).map f
      = ((before ++ n :: after).find? (·.field == some name)).map f :=
  map_field_replace before after name same.field fun _ => agree

theorem SameSpread.attributesToAst_replace
    : attributesToAst source (before ++ m :: after)
      = attributesToAst source (before ++ n :: after) := by
  rw [attributesToAst_eq, attributesToAst_eq, List.filter_filter, List.filter_filter]
  refine map_filter_replace before after (by rw [same.isTagAttribute_eq, same.named]) fun _ => ?_
  rw [tagPartToAst, tagPartToAst, same.kind, position, position, same.start, same.parts,
    toAttribute, toAttribute]
  have kind : n.kind = "jsx_expression" := eq_of_beq (Bool.and_eq_true_iff.mp same.isSpread).2
  rw [if_neg (by simp [kind]), if_neg (by simp [kind])]

theorem SameSpread.insertOffset_replace {kind : String} {field : Option String} {named : Bool}
    {start stop : Nat}
    : (node kind field named start stop (before ++ m :: after)).insertOffset
      = (node kind field named start stop (before ++ n :: after)).insertOffset := by
  apply insertOffset_congr
  · exact same.name_replace before after same.stop "name"
  · rw [Cst.parts, Cst.parts, List.filter_filter, List.filter_filter]
    exact map_filter_replace before after (by rw [same.isTagAttribute_eq, same.named])
      fun _ => same.stop

/-- A tag gives the same if one of its spreads does. -/
theorem SameSpread.tagToAst_replace {kind : String} {field : Option String} {named : Bool}
    {start stop : Nat} (p : Position) (content : List Node)
    : tagToAst source (node kind field named start stop (before ++ m :: after)) p content
      = tagToAst source (node kind field named start stop (before ++ n :: after)) p content := by
  have offset
      : (node kind field named start stop (before ++ m :: after)).insertOffset
        = (node kind field named start stop (before ++ n :: after)).insertOffset :=
    same.insertOffset_replace before after
  have name := same.name_replace before after same.toTagName_eq "name"
  have attributes := same.attributesToAst_replace before after
  rw [tagToAst, tagToAst]
  simp only [Cst.field?, Cst.children, attributes, offset]
  cases found : (before ++ m :: after).find? (·.field == some "name") with
  | none =>
      rw [found] at name
      rw [Option.map_eq_none_iff.mp name.symm]
  | some first =>
      rw [found] at name
      obtain ⟨second, found', agree⟩ := Option.map_eq_some_iff.mp name.symm
      rw [found']
      simp only [agree]
      rfl

end

-----------------------------------------------------------------------------------------
-- What is read
-----------------------------------------------------------------------------------------

/-- Two nodes give the same where they are read in some way. -/
def Agrees (source : List UInt8) : Reading → Cst → Cst → Prop
  | .converted exported, n, m => toAst source exported m = toAst source exported n
  | .declarator, n, m => toAst source false m = toAst source false n
  | .body, n, m =>
      listToAst source (m.kind == exportKind) m.children
      = listToAst source (n.kind == exportKind) n.children
  | .tag, n, m => ∀ p content, tagToAst source m p content = tagToAst source n p content
  | .spread, n, m => listToAst source false m.children = listToAst source false n.children

/-- Whether a node stands in an export matters for classes only. -/
theorem toAst_of_not_class {exported : Bool} (other : exported = true → n.kind ≠ "class")
    : toAst source exported n = toAst source false n := by
  cases exported with
  | false => rfl
  | true =>
      cases n with
      | node kind field named start stop children =>
          cases construct : Construct.ofKind kind with
          | classExpression => exact absurd (kind_of_single construct rfl) (other rfl)
          | _ => simp only [toAst, construct]

/-- The field that a node fills is not part of its syntax. -/
theorem toAst_withField (exported : Bool) (n : Cst) (field? : Option String)
    : toAst source exported (n.withField field?) = toAst source exported n := by
  cases n with
  | node kind field named start stop children =>
      simp only [withField, toAst]
      rfl

/-- Parentheses around one node give its syntax. -/
theorem toAst_parentheses {exported : Bool} {field field? : Option String} {start stop : Nat}
    (structural : n.isStructural = true) (other : exported = true → n.kind ≠ "class")
    : toAst source exported
          (.node "parenthesized_expression" field true start stop [n.withField field?])
      = toAst source exported n := by
  have structural' : (n.withField field?).isStructural = true := by
    cases n
    exact structural
  have construct : Construct.ofKind "parenthesized_expression" = .parentheses := rfl
  have single
      : (node "parenthesized_expression" field true start stop [n.withField field?]).parts.length
        = 1 := by
    rw [parts, children, List.filter_cons_of_pos structural']
    rfl
  simp only [toAst, construct, single, if_true, firstToAst, structural', toAst_withField]
  exact (toAst_of_not_class other).symm

-----------------------------------------------------------------------------------------
-- One step up
-----------------------------------------------------------------------------------------

section

variable {kind : String} {field : Option String} {named : Bool} {start stop : Nat}

/-- An element gives the same if its content and its open tag do. -/
theorem element_replace (element : kind = "jsx_element") (fields : m.field = n.field)
    (kept : m.isContent = n.isContent)
    (content : n.isContent = true → toAst source false m = toAst source false n)
    (tag
      : n.Fills before "open_tag" →
          ∀ p content, tagToAst source m p content = tagToAst source n p content)
    (exported : Bool)
    : toAst source exported (node kind field named start stop (before ++ m :: after))
      = toAst source exported (node kind field named start stop (before ++ n :: after)) := by
  have inside : contentToAst source (before ++ m :: after)
      = contentToAst source (before ++ n :: after) := by
    rw [contentToAst_eq, contentToAst_eq, map_filter_replace before after kept content]
  have opens (p : Position) (content : List Node)
      : ((before ++ m :: after).find? (·.field == some "open_tag")).map
            (tagToAst source · p content)
        = ((before ++ n :: after).find? (·.field == some "open_tag")).map
            (tagToAst source · p content) :=
    map_field_replace before after "open_tag" fields fun fills => tag fills p content
  have above (children : List Cst) :=
    toAst_of_element (n := node kind field named start stop children) source exported element
  rw [above, above]
  simp only [Cst.children, Cst.field?, inside, opens]
  rfl

/-- A node that converts some fields gives the same if the node in one of them does. -/
theorem convertedField_replace {name : String}
    (listed : name ∈ (Construct.ofKind kind).convertedFields) (fills : n.field = some name)
    (fields : m.field = n.field) (same : toAst source false m = toAst source false n)
    (exported : Bool)
    : toAst source exported (node kind field named start stop (before ++ m :: after))
      = toAst source exported (node kind field named start stop (before ++ n :: after)) := by
  have converted := fieldToAst_replace before after fields same
  have other (label : String) (different : label ≠ name)
      : ((before ++ m :: after).find? (·.field == some label)).map (text source)
        = ((before ++ n :: after).find? (·.field == some label)).map (text source) := by
    refine map_field_replace before after label fields fun filled => ?_
    exact absurd (Option.some.inj (fills.symm.trans filled.1)).symm different
  cases construct : Construct.ofKind kind with
  | declarator | arrow | conditional =>
      simp only [toAst, construct, converted]
      rfl
  | functionStatement =>
      rw [construct] at listed
      have word := other "name" (by rw [List.mem_singleton.mp listed]; decide)
      simp only [toAst, construct, converted, Cst.field?, Cst.children, word]
      rfl
  | method =>
      rw [construct] at listed
      have word := other "name" (by rw [List.mem_singleton.mp listed]; decide)
      simp only [toAst, construct, converted, Cst.fieldText, Cst.field?, Cst.children, word]
      rfl
  | member =>
      rw [construct] at listed
      have word := other "property" (by rw [List.mem_singleton.mp listed]; decide)
      simp only [toAst, construct, converted, Cst.fieldText, Cst.field?, Cst.children, word]
      rfl
  | _ =>
      rw [construct] at listed
      cases listed

theorem Wraps.sameSpread (wraps : Wraps .spread n m) (isSpread : n.isSpread = true)
    (agrees : Agrees source .spread n m)
    : SameSpread source n m where
  isSpread := isSpread
  field := wraps.field_eq
  named := wraps.isStructural_eq
  kind := (wraps.same (by simp)).1
  start := (wraps.same (by simp)).2.1
  stop := (wraps.same (by simp)).2.2
  parts := agrees

theorem Wraps.text_eq (wraps : Wraps r n m) (unconverted : ∀ exported, r ≠ .converted exported)
    : text source m = text source n := by
  obtain ⟨_, start, stop⟩ := wraps.same unconverted
  rw [text, text, start, stop]

section

variable {way : Reading} (wraps : Wraps way n m)

include wraps

/-- A node that is converted gives the same if a child that it reads does, by cases on the ways in
which it reads that child.
-/
theorem Reads.converted_agrees {exported : Bool}
    (reads : Reads (.converted exported) kind before n way) (agrees : Agrees source way n m)
    (content : n.ReadTwice kind before → Agrees source (.converted false) n m)
    (tag : n.ReadTwice kind before → Agrees source .tag n m)
    : toAst source exported (node kind field named start stop (before ++ m :: after))
      = toAst source exported (node kind field named start stop (before ++ n :: after)) := by
  have structural := wraps.isStructural_eq
  have fields := wraps.field_eq
  cases reads with
  | part listed own =>
      have list := listToAst_replace before after structural fun _ => agrees
      cases construct : Construct.ofKind kind with
      | block =>
          obtain rfl := kind_of_single construct rfl
          simp only [toAst, construct]
          exact congrArg (Node.group _ _) list
      | other =>
          simp only [toAst, construct, list]
          rfl
      | parentheses =>
          obtain rfl := kind_of_single construct rfl
          have first := firstToAst_replace before after structural agrees
          have single
              : (node "parenthesized_expression" field named start stop
                    (before ++ m :: after)).parts.length
                = (node "parenthesized_expression" field named start stop
                    (before ++ n :: after)).parts.length := by
            simp [parts, children, structural, own]
          simp only [toAst, construct, single, first]
          exact if_congr Iff.rfl rfl (congrArg (Node.group _ _) list)
      | _ => simp [construct] at listed
  | classPart construct _ =>
      have list := listToAst_replace before after structural fun _ => agrees
      simp only [toAst, construct, list]
      rfl
  | first listed _ leading =>
      have first := firstToAst_replace before after structural agrees
      cases construct : Construct.ofKind kind with
      | returnStatement | jsxExpression =>
          simp only [toAst, construct, first]
          rfl
      | _ => simp [construct] at listed
  | field listed fills =>
      exact convertedField_replace before after listed fills.1 fields agrees exported
  | declaration construct _ declarator =>
      have same := wraps.same (by simp)
      have declarators : declaratorsToAst source (before ++ m :: after)
          = declaratorsToAst source (before ++ n :: after) := by
        rw [declaratorsToAst_eq, declaratorsToAst_eq]
        exact map_filter_replace before after (by rw [structural, same.1]) fun _ => agrees
      have word : (before ++ m :: after).head?.map (text source)
          = (before ++ n :: after).head?.map (text source) := by
        cases before with
        | nil => exact congrArg some (wraps.text_eq (by simp))
        | cons => rfl
      simp only [toAst, construct, declarators, word]
      rfl
  | classBody construct fills =>
      have members : membersToAst source (before ++ m :: after)
          = membersToAst source (before ++ n :: after) := by
        rw [membersToAst_eq, membersToAst_eq]
        exact congrArg (Option.getD · []) (map_field_replace
          (f := fun body => listToAst source (body.kind == exportKind) body.children)
          before after "body" fields fun _ => agrees)
      have word : ((before ++ m :: after).find? (·.field == some "name")).map (text source)
          = ((before ++ n :: after).find? (·.field == some "name")).map (text source) :=
        map_field_replace before after "name" fields fun _ => wraps.text_eq (by simp)
      rcases construct with construct | ⟨construct, rfl⟩ <;>
        simp only [toAst, construct, members, Cst.field?, Cst.children, word] <;>
        rfl
  | content construct isContent =>
      have kept : m.isContent = n.isContent := (wraps.isContent_eq isContent).trans isContent.symm
      refine element_replace before after (kind_of_construct construct) fields kept
        (fun _ => agrees) ?_ exported
      exact fun fills => tag ⟨construct, isContent, fills⟩
  | openTag construct fills =>
      have kept : m.isContent = n.isContent := by
        rw [isContent, isContent, structural, (wraps.same (by simp)).1]
      refine element_replace before after (kind_of_construct construct) fields kept ?_
        (fun _ => agrees) exported
      exact fun isContent => content ⟨construct, isContent, fills⟩
  | selfClosing construct isSpread =>
      have spread := wraps.sameSpread isSpread agrees
      have kind := kind_of_construct construct
      have above (children : List Cst) :=
        toAst_of_selfClosing source (n := node _ field named start stop children) exported kind
      have name := spread.name_replace before after spread.toTagName_eq "name"
      rw [above, above, spread.insertOffset_replace]
      simp only [Cst.field?, Cst.children, name, spread.attributesToAst_replace before after]
      rfl

/-- What a node gives where it is read in any way. -/
theorem Reads.agrees (reads : Reads r kind before n way) (agrees : Agrees source way n m)
    (content : n.ReadTwice kind before → Agrees source (.converted false) n m)
    (tag : n.ReadTwice kind before → Agrees source .tag n m)
    : Agrees source r (node kind field named start stop (before ++ n :: after))
        (node kind field named start stop (before ++ m :: after)) := by
  cases r with
  | converted exported => exact reads.converted_agrees before after wraps agrees content tag
  | declarator =>
      cases reads with
      | declarator reads => exact reads.converted_agrees before after wraps agrees content tag
  | body =>
      cases reads with
      | bodyPart => exact listToAst_replace before after wraps.isStructural_eq fun _ => agrees
  | tag =>
      cases reads with
      | spread isSpread => exact (wraps.sameSpread isSpread agrees).tagToAst_replace before after
  | spread =>
      cases reads with
      | spreadPart => exact listToAst_replace before after wraps.isStructural_eq fun _ => agrees

end

end

/-- A node in parentheses gives the same in each way to read it, by induction on where it stands. -/
theorem Wraps.agrees (wraps : Wraps r n m) : Agrees source r n m := by
  induction wraps with
  | here structural other => exact toAst_parentheses structural other
  | @inside _ _ _ _ _ _ _ before after n m reads wraps _ _ agrees content tag =>
      refine reads.agrees before after wraps agrees content fun twice => ?_
      by_cases same : SameTag n m
      · exact same.tagToAst_eq
      · exact tag twice same

-----------------------------------------------------------------------------------------
-- Whole files
-----------------------------------------------------------------------------------------

/-- A file is read as a node that is not converted itself. -/
theorem toProgram_of_agrees {root root' : Cst} (agrees : Agrees source .body root root')
    (filename : String)
    : toProgram filename source root' = toProgram filename source root := by
  rw [toProgram, toProgram]
  exact congrArg (Program.mk filename source ⟨1, 1⟩) agrees

/-- Comments and parentheses make no difference to a file. However many comments are added one after
the other, and however many nodes that are converted are put in parentheses, the program is the same,
and with it its components, its aliases, and the bytes that are written.
-/
theorem toProgram_unseen {root root' : Cst}
    (steps : Relation.ReflTransGen (fun n m => CommentAdded n m ∨ Wraps .body n m) root root')
    (filename : String) (source : List UInt8)
    : toProgram filename source root' = toProgram filename source root := by
  induction steps with
  | refl => rfl
  | tail _ step ih =>
      rw [← ih]
      rcases step with added | wraps
      · exact added.toProgram_eq filename
      · exact toProgram_of_agrees wraps.agrees filename

/-- A node in parentheses of its own range. -/
def parenthesized (n : Cst) : Cst :=
  .node "parenthesized_expression" n.field true n.start n.stop [n.withField none]

/-- A file with a declaration, whose second part is given, and a value. -/
def declarationFile (between : List Cst) (value : Cst) : Cst :=
  .node "program" none true 0 9 [
    .node "lexical_declaration" none true 0 9 (.node "const" none false 0 5 [] :: between ++ [
      .node "variable_declarator" none true 6 9 [
        .node "identifier" (some "name") true 6 7 [],
        value
      ]
    ])
  ]

/-- The value of a declaration. -/
def declaredValue : Cst :=
  .node "identifier" (some "value") true 8 9 []

/-- A value in parentheses is the value, in a declaration with a comment in it. -/
theorem toProgram_unseen_declaration
    : toProgram "A.tsx" (Utf8.bytes "const A=a")
          (declarationFile [.node "comment" none true 5 5 []] declaredValue.parenthesized)
      = toProgram "A.tsx" (Utf8.bytes "const A=a") (declarationFile [] declaredValue) := by
  have once {kind : String} {before : List Cst} {n : Cst} (other : Construct.ofKind kind ≠ .element)
      : ¬ n.ReadTwice kind before :=
    fun twice => other twice.1
  have comment
      : CommentAdded (declarationFile [] declaredValue)
          (declarationFile [.node "comment" none true 5 5 []] declaredValue) :=
    @CommentAdded.inside _ _ _ _ _ [] [] _ _
      (@CommentAdded.here _ _ _ _ _ [.node "const" none false 0 5 []] _ _ _ nofun)
  have value
      : Reads (.converted false) "variable_declarator" [.node "identifier" (some "name") true 6 7 []]
          declaredValue (.converted false) :=
    @Reads.field _ _ "value" _ _ (by decide) ⟨rfl, by decide⟩
  have declarator
      : Wraps .declarator
          (.node "variable_declarator" none true 6 9
            ([.node "identifier" (some "name") true 6 7 []] ++ declaredValue :: []))
          (.node "variable_declarator" none true 6 9
            ([.node "identifier" (some "name") true 6 7 []] ++ declaredValue.parenthesized :: [])) :=
    .inside (.declarator value) (.here rfl nofun) (absurd · (once (by decide)))
      (absurd · (once (by decide)))
  have declaration := @Wraps.inside (.converted false) .declarator "lexical_declaration" none true
    0 9 [.node "const" none false 0 5 [], .node "comment" none true 5 5 []] [] _ _
    (.declaration rfl rfl rfl) declarator (absurd · (once (by decide))) (absurd · (once (by decide)))
  have file := @Wraps.inside .body (.converted false) "program" none true 0 9 [] [] _ _
    (.bodyPart rfl) declaration (absurd · (once (by decide))) (absurd · (once (by decide)))
  exact toProgram_unseen (.tail (.single (Or.inl comment)) (Or.inr file)) _ _

/-- A file that consists of an arrow function with a body. -/
def arrowFile (body : Cst) : Cst :=
  .node "program" none true 0 1 [.node "arrow_function" none true 0 1 [body]]

/-- A file that consists of an element with a node in the place of its tags. -/
def elementFile (tag : Cst) : Cst :=
  .node "program" none true 0 1 [.node "jsx_element" none true 0 1 [tag]]

/-- A self-closing tag in the place of an open tag. -/
def selfClosingTag : Cst :=
  .node "jsx_self_closing_element" (some "open_tag") true 0 1
    [.node "identifier" (some "name") true 0 1 []]

/-- The type of a node, for opaque syntax its kind. -/
def typeOrKind : Node → String
  | .group _ (.opaqueNode kind) _ => kind
  | n => n.typeName

/-- Some parentheses are seen, since they make a node structural that was not, or since they hide a
tag: around a token or a comment that is read by its field, and around an open tag that is content
too.
-/
theorem parentheses_seen
    : (∀ body ∈ [
            .node "identifier" (some "body") false 0 1 [],
            .node "comment" (some "body") true 0 1 []
          ],
          Reads (.converted false) "arrow_function" [] body (.converted false)
          ∧ toProgram "A.tsx" (Utf8.bytes "a") (arrowFile body.parenthesized)
            ≠ toProgram "A.tsx" (Utf8.bytes "a") (arrowFile body))
      ∧ Reads (.converted false) "jsx_element" [] selfClosingTag (.converted false)
      ∧ toProgram "A.tsx" (Utf8.bytes "a") (elementFile selfClosingTag.parenthesized)
        ≠ toProgram "A.tsx" (Utf8.bytes "a") (elementFile selfClosingTag) := by
  have differ {root root' : Cst}
      (forms
        : (toProgram "A.tsx" (Utf8.bytes "a") root).toNode.trail.map typeOrKind
          ≠ (toProgram "A.tsx" (Utf8.bytes "a") root').toNode.trail.map typeOrKind)
      : toProgram "A.tsx" (Utf8.bytes "a") root ≠ toProgram "A.tsx" (Utf8.bytes "a") root' :=
    fun same => forms (by rw [same])
  refine ⟨?_, .content rfl rfl, differ (by decide +kernel)⟩
  intro body member
  simp only [List.mem_cons, List.not_mem_nil, or_false] at member
  rcases member with rfl | rfl
  · exact ⟨@Reads.field _ _ "body" _ _ (by decide) ⟨rfl, nofun⟩, differ (by decide +kernel)⟩
  · exact ⟨@Reads.field _ _ "body" _ _ (by decide) ⟨rfl, nofun⟩, differ (by decide +kernel)⟩

end Cst
end JsxProvenance
