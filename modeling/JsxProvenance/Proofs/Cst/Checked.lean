import JsxProvenance.Proofs.Cst.Readers

/-! The syntax of whole concrete trees, read with all looks that can go wrong. Whatever stands in a
tree, and wherever, each reader comes to its end and gives the syntax of the direct definition.
-/

namespace JsxProvenance.Cst

open Ast

section

variable (source : List UInt8)

mutual

/-- The syntax of a node. A class expression asks what its parent is. -/
def readSyntax (parent? : Option Cst) (n : Cst) : Except Stop Node := do
  let position := n.position source
  match Construct.ofKind n.kind with
  | .name => return .leaf position (.identifier (n.text source))
  | .importStatement => readImport source n
  | .variableDeclaration =>
      let word ← readDeclarationWord source n
      let declarators ← (n.childParts.filter (·.1.kind == "variable_declarator")).mapM fun c =>
        readSyntax (some n) c.1
      return .group position (.variableDeclaration word) declarators
  | .declarator =>
      let binding ← readOptional (fun c => readSyntax (some n) c.1) (n.childField? "name")
      let init ← readOptional (fun c => readSyntax (some n) c.1) (n.childField? "value")
      return .declarator position binding init
  | .objectPattern => readObjectPattern source n
  | .functionStatement =>
      let name? := n.field? "name"
      let body ← readOptional (fun c => readSyntax (some n) c.1) (n.childField? "body")
      return .wrap position
        (.functionDeclaration (if name?.isSome then some (textOf source name?) else none)) body
  | .arrow =>
      let body ← readOptional (fun c => readSyntax (some n) c.1) (n.childField? "body")
      return .wrap position .arrowFunction body
  | .classStatement => readClass n
  | .classExpression =>
      if parent?.isNone then
        readOpaque n
      else
        let parent ← ask parent? "type"
        if parent.kind = exportKind then readClass n else readOpaque n
  | .method =>
      let body ← readOptional (fun c => readSyntax (some n) c.1) (n.childField? "body")
      return .wrap position (.methodDefinition (textOf source (n.field? "name"))) body
  | .block =>
      let body ← n.childParts.mapM fun c => readSyntax (some n) c.1
      return .group position .blockStatement body
  | .returnStatement =>
      let argument ← readFirst (fun c => readSyntax (some n) c.1) n.childParts
      return .wrap position .returnStatement argument
  | .parentheses =>
      if n.childParts.length = 1 then
        let c ← item n.childParts 0
        readSyntax (some n) c.1
      else readOpaque n
  | .conditional =>
      let test ← readOptional (fun c => readSyntax (some n) c.1) (n.childField? "condition")
      let consequent ← readOptional (fun c => readSyntax (some n) c.1) (n.childField? "consequence")
      let alternate ← readOptional (fun c => readSyntax (some n) c.1) (n.childField? "alternative")
      return .conditional position test consequent alternate
  | .member =>
      let object ← readOptional (fun c => readSyntax (some n) c.1) (n.childField? "object")
      return .wrap position (.memberExpression (textOf source (n.field? "property"))) object
  | .string =>
      let value ← readString source (some n)
      return .leaf position (.stringLiteral value)
  | .element =>
      let children ← (n.childParts.filter (isContent ·.1)).mapM fun c => readSyntax (some n) c.1
      let tag? := n.childField? "open_tag"
      if tag?.isNone then
        return .group position .jsxFragment children
      else
        let tag ← ask tag? "child_by_field_name"
        if (tag.1.field? "name").isNone then
          return .group position .jsxFragment children
        else readTag tag.1 children false
  | .selfClosingElement => readTag n [] true
  | .jsxText => return .leaf position (.jsxText (n.text source))
  | .jsxExpression =>
      let expression ← readFirst (fun c => readSyntax (some n) c.1) n.childParts
      return .wrap position .jsxExpressionContainer expression
  | .other => readOpaque n
termination_by (sizeOf n, 1)
decreasing_by
  all_goals first
    | exact Prod.Lex.left _ _ (sizeOf_lt_of_child c.2)
    | exact Prod.Lex.left _ _ (sizeOf_lt_of_child tag.2)
    | exact Prod.Lex.right _ Nat.zero_lt_one

/-- Syntax without a form of its own. -/
def readOpaque (n : Cst) : Except Stop Node := do
  let children ← n.childParts.mapM fun c => readSyntax (some n) c.1
  return .group (n.position source) (.opaqueNode n.kind) children
termination_by (sizeOf n, 0)
decreasing_by exact Prod.Lex.left _ _ (sizeOf_lt_of_child c.2)

/-- A class, with the members in its body. -/
def readClass (n : Cst) : Except Stop Node := do
  let name? := n.field? "name"
  let body? := n.childField? "body"
  let members ←
    if body?.isSome then do
      let body ← ask body? "named_children"
      body.1.childParts.mapM fun c => readSyntax (some body.1) c.1
    else pure []
  return .group (n.position source)
    (.classDeclaration (if name?.isSome then some (textOf source name?) else none)) members
termination_by (sizeOf n, 0)
decreasing_by
  exact Prod.Lex.left _ _ (Nat.lt_trans (sizeOf_lt_of_child c.2) (sizeOf_lt_of_child body.2))

/-- An element, from its opening or self-closing tag. -/
def readTag (tag : Cst) (children : List Node) (selfClosing : Bool) : Except Stop Node := do
  let attributes ← (tag.childParts.filter (isTagAttribute ·.1)).mapM fun c =>
    if c.1.kind = "jsx_attribute" then readAttribute source c.1 else readOpaque c.1
  let offset ← readInsertOffset tag
  let name ← readOptional (readTagName source) (tag.field? "name")
  return .element (tag.position source) name attributes children selfClosing offset
termination_by (sizeOf tag, 0)
decreasing_by exact Prod.Lex.left _ _ (sizeOf_lt_of_child c.2)

end

/-- The program of a concrete tree. -/
def readProgram (filename : String) (root : Cst) : Except Stop Program := do
  let body ← root.parts.mapM (readSyntax source (some root))
  return { filename, source, position := ⟨1, 1⟩, body }

-----------------------------------------------------------------------------------------
-- No reader stops
-----------------------------------------------------------------------------------------

/-- Only what has no form of its own can be an export. -/
theorem kind_ne_exportKind {kind : String} (formed : Construct.ofKind kind ≠ .other)
    : (kind == exportKind) = false := by
  rw [beq_eq_false_iff_ne]
  rintro rfl
  exact formed rfl

/-- Each child is read, and a class expression among them is told whether the node is an export. -/
def ReadsChildren (n : Cst) : Prop :=
  ∀ c : n.Child,
    readSyntax source (some n) c.1 = .ok (toAst source (n.kind == exportKind) c.1)

/-- All smaller nodes have children that are read. -/
def ReadsSmaller (n : Cst) : Prop :=
  ∀ m : Cst, sizeOf m < sizeOf n → m.ReadsChildren source

variable {source} {n : Cst}

theorem ReadsSmaller.child (below : n.ReadsSmaller source) (c : n.Child)
    : c.1.ReadsChildren source :=
  below c.1 (sizeOf_lt_of_child c.2)

theorem ReadsChildren.list (reads : n.ReadsChildren source)
    : n.childParts.mapM (fun c => readSyntax source (some n) c.1)
      = .ok (listToAst source (n.kind == exportKind) n.children) := by
  rw [mapM_eq reads, listToAst_eq, ← parts, ← map_childParts, List.map_map]
  rfl

/-- The declarators and the content of an element are read, as a selection of the parts. -/
theorem ReadsChildren.selection (reads : n.ReadsChildren source) (keep : Cst → Bool)
    : (n.childParts.filter (keep ·.1)).mapM (fun c => readSyntax source (some n) c.1)
      = .ok ((n.children.filter fun c => c.isStructural && keep c).map
          (toAst source (n.kind == exportKind))) := by
  rw [readParts_eq reads, parts, List.filter_filter]
  simp only [Bool.and_comm]

theorem ReadsChildren.opaque' (reads : n.ReadsChildren source)
    : readOpaque source n
      = .ok (.group (n.position source) (.opaqueNode n.kind)
          (listToAst source (n.kind == exportKind) n.children)) := by
  rw [readOpaque, reads.list]
  rfl

theorem some_textOf (n? : Option Cst)
    : (if n?.isSome then some (textOf source n?) else none) = n?.map (text source) := by
  cases n? <;> rfl

theorem ReadsSmaller.class' (below : n.ReadsSmaller source)
    : readClass source n
      = .ok (.group (n.position source) (.classDeclaration ((n.field? "name").map (text source)))
          (membersToAst source n.children)) := by
  rw [readClass, some_textOf, membersToAst_eq, ← field?, ← map_childField? n "body"]
  cases n.childField? "body" with
  | none => rfl
  | some body =>
      change (body.1.childParts.mapM (fun c => readSyntax source (some body.1) c.1) >>= _) = _
      rw [(below.child body).list]
      rfl

theorem ReadsSmaller.tag {tag : Cst} (below : tag.ReadsSmaller source) (children : List Node)
    (selfClosing : Bool)
    : readTag source tag children selfClosing
      = .ok (.element (tag.position source)
          (((tag.field? "name").map (toTagName source)).getD .absent)
          (attributesToAst source tag.children) children selfClosing tag.insertOffset) := by
  have attributes
      : (tag.childParts.filter (isTagAttribute ·.1)).mapM (fun c =>
          if c.1.kind = "jsx_attribute" then readAttribute source c.1 else readOpaque source c.1)
        = .ok (attributesToAst source tag.children) := by
    have each (c : tag.Child) (chosen : c ∈ tag.childParts.filter (isTagAttribute ·.1))
        : (if c.1.kind = "jsx_attribute" then readAttribute source c.1 else readOpaque source c.1)
          = .ok (tagPartToAst source c.1) := by
      by_cases attr : c.1.kind = "jsx_attribute"
      · rw [if_pos attr, readAttribute_eq, tagPartToAst, if_pos attr]
      · have spread : c.1.kind = "jsx_expression" := by
          simpa [isTagAttribute, attr] using (List.mem_filter.mp chosen).2
        rw [if_neg attr, (below.child c).opaque', tagPartToAst, if_neg attr, spread]
        rfl
    rw [mapM_eq_of_mem each, attributesToAst_eq, ← parts, ← map_childParts, List.filter_map,
      List.map_map]
    rfl
  rw [readTag, attributes, readOptional_eq (readTagName_eq source), readInsertOffset_eq]
  rfl

/-- A node that is no element with two tags is read, by cases on the construct. -/
theorem readSyntax_of_not_element (reads : n.ReadsChildren source) (below : n.ReadsSmaller source)
    (other : Construct.ofKind n.kind ≠ .element) (parent? : Option Cst)
    : readSyntax source parent? n
      = .ok (toAst source (parent?.any (·.kind == exportKind)) n) := by
  have plain (formed : Construct.ofKind n.kind ≠ .other) (c : n.Child)
      : readSyntax source (some n) c.1 = .ok (toAst source false c.1) :=
    kind_ne_exportKind formed ▸ reads c
  have list := reads.list
  have declarators := reads.selection (·.kind == "variable_declarator")
  rw [readSyntax]
  cases n with
  | node kind field named start stop children =>
      rw [toAst, show Construct.ofKind kind
        = Construct.ofKind (Cst.node kind field named start stop children).kind from rfl]
      cases construct : Construct.ofKind (Cst.node kind field named start stop children).kind with
      | element => exact absurd construct other
      | name | jsxText => rfl
      | importStatement => exact readImport_eq source _
      | objectPattern => exact readObjectPattern_eq source _
      | string =>
          simp only [readString_eq]
          rfl
      | classStatement => exact below.class'
      | selfClosingElement => exact below.tag [] true
      | other => exact reads.opaque'
      | declarator | conditional | functionStatement | arrow | method | member =>
          simp only [readField_eq (plain (by rw [construct]; decide)), some_textOf, fieldToAst_eq]
          rfl
      | returnStatement | jsxExpression =>
          simp only [readFirstPart_eq (plain (by rw [construct]; decide)), firstToAst_eq]
          rfl
      | block =>
          rw [kind_ne_exportKind (by rw [construct]; decide)] at list
          simp only [list]
          rfl
      | variableDeclaration =>
          rw [kind_ne_exportKind (by rw [construct]; decide)] at declarators
          simp only [readDeclarationWord_eq, declarators, declaratorsToAst_eq]
          rfl
      | classExpression =>
          have opaque' := reads.opaque'
          rw [kind_ne_exportKind (by rw [construct]; decide)] at opaque'
          cases parent? with
          | none => exact opaque'
          | some parent =>
              change (if parent.kind = exportKind then readClass source _ else readOpaque source _) = _
              rw [Option.any_some]
              by_cases exported : parent.kind = exportKind
              · rw [if_pos exported, below.class', beq_iff_eq.mpr exported]
                rfl
              · rw [if_neg exported, opaque', beq_eq_false_iff_ne.mpr exported]
                rfl
      | parentheses =>
          have opaque' := reads.opaque'
          rw [kind_ne_exportKind (by rw [construct]; decide)] at opaque'
          have first := readFirstPart_eq (plain (by rw [construct]; decide))
          simp only [length_childParts]
          by_cases single : (parts (.node kind field named start stop children)).length = 1
          · rw [if_pos single, if_pos single, firstToAst_eq]
            rw [← length_childParts] at single
            rw [readFirst, if_neg (by rw [List.isEmpty_iff_length_eq_zero]; omega)] at first
            exact first
          · rw [if_neg single, if_neg single]
            exact opaque'

theorem readSyntax_of_element (reads : n.ReadsChildren source) (below : n.ReadsSmaller source)
    (element : Construct.ofKind n.kind = .element) (parent? : Option Cst)
    : readSyntax source parent? n
      = .ok (toAst source (parent?.any (·.kind == exportKind)) n) := by
  have kind := kind_of_construct element
  have content := reads.selection isContent
  have structural (c : Cst) : (c.isStructural && c.isContent) = c.isContent := by
    simp only [isContent, ← Bool.and_assoc, Bool.and_self]
  simp only [structural] at content
  rw [kind_ne_exportKind (by rw [element]; decide), ← contentToAst_eq] at content
  rw [readSyntax, element]
  simp only [content]
  cases opens : n.childField? "open_tag" with
  | none =>
      have closed : n.field? "open_tag" = none := by
        rw [← map_childField?, opens]
        rfl
      rw [toAst_of_nameless source _ kind fun tag found => by rw [closed] at found; cases found]
      rfl
  | some tag =>
      have opens : n.field? "open_tag" = some tag.1 := by
        rw [← map_childField?, opens]
        rfl
      change (if (tag.1.field? "name").isNone = true then _ else readTag source tag.1 _ false) = _
      cases named : tag.1.field? "name" with
      | none =>
          rw [toAst_of_nameless source _ kind fun other found => by
            rw [opens] at found
            cases found
            exact named]
          rfl
      | some name =>
          have inner : tag.1.ReadsSmaller source := fun m smaller =>
            below m (Nat.lt_trans smaller (sizeOf_lt_of_child tag.2))
          rw [toAst_of_name source _ kind opens named, inner.tag, named]
          rfl

/-- Every node is read to its end, by induction on size. -/
theorem readSyntax_eq (parent? : Option Cst) (n : Cst)
    : readSyntax source parent? n
      = .ok (toAst source (parent?.any (·.kind == exportKind)) n) := by
  induction n using sizeInduction generalizing parent? with
  | step n ih =>
      have reads : n.ReadsChildren source := fun c => ih c.1 (sizeOf_lt_of_child c.2) (some n)
      have below : n.ReadsSmaller source := fun m smaller c =>
        ih c.1 (Nat.lt_trans (sizeOf_lt_of_child c.2) smaller) (some m)
      by_cases element : Construct.ofKind n.kind = .element
      · exact readSyntax_of_element reads below element parent?
      · exact readSyntax_of_not_element reads below element parent?

/-- Every tree is read to its end. -/
theorem readProgram_eq (filename : String) (root : Cst)
    : readProgram source filename root = .ok (root.toProgram filename source) := by
  rw [readProgram, mapM_eq (readSyntax_eq (some root)), toProgram, listToAst_eq]
  rfl

end

end JsxProvenance.Cst
