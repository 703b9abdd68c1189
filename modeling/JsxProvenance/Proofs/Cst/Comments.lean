import JsxProvenance.Proofs.Cst.Conversion

/-! Comments are not seen. A tree is read as the tree without its comments, since each reader filters
or searches the children of a node, and none of the filters and searches takes a comment. Only the
first child of a declaration is read whatever it is, so that child is kept.
-/

namespace JsxProvenance.Cst

open Ast

/-- A comment that fills no field. -/
def isComment (n : Cst) : Bool :=
  n.kind == "comment" && n.field.isNone

/-- The kinds of nodes that are read by the word that they start with. -/
def declarationKinds : List String :=
  kindsOf .variableDeclaration

/-- There is one comment more somewhere in a tree, but not as the first child of a declaration. -/
inductive CommentAdded : Cst → Cst → Prop
  | here {kind : String} {field : Option String} {named : Bool} {start stop : Nat}
    {before after : List Cst} {first last : Nat} (behind : kind ∈ declarationKinds → before ≠ [])
    : CommentAdded (.node kind field named start stop (before ++ after))
        (.node kind field named start stop
          (before ++ .node "comment" none true first last [] :: after))
  | inside {kind : String} {field : Option String} {named : Bool} {start stop : Nat}
    {before after : List Cst} {n m : Cst} (added : CommentAdded n m)
    : CommentAdded (.node kind field named start stop (before ++ n :: after))
        (.node kind field named start stop (before ++ m :: after))

mutual

/-- The tree without comments, but with the first child of each declaration. -/
def uncommented : Cst → Cst
  | node kind field named start stop children =>
      node kind field named start stop (listUncommented (kind ∈ declarationKinds) children)

/-- A list of children without comments, but with its first node if that is read. -/
def listUncommented (first : Bool) : List Cst → List Cst
  | [] => []
  | n :: rest =>
      if !first && n.isComment then listUncommented false rest
      else n.uncommented :: listUncommented false rest

end

-----------------------------------------------------------------------------------------
-- The tree without comments
-----------------------------------------------------------------------------------------

section

variable (n : Cst)

@[simp]
theorem kind_uncommented : n.uncommented.kind = n.kind := by
  cases n
  rw [uncommented, kind, kind]

@[simp]
theorem field_uncommented : n.uncommented.field = n.field := by
  cases n
  rw [uncommented, field, field]

@[simp]
theorem named_uncommented : n.uncommented.named = n.named := by
  cases n
  rw [uncommented, named, named]

@[simp]
theorem start_uncommented : n.uncommented.start = n.start := by
  cases n
  rw [uncommented, start, start]

@[simp]
theorem stop_uncommented : n.uncommented.stop = n.stop := by
  cases n
  rw [uncommented, stop, stop]

theorem children_uncommented
    : n.uncommented.children = listUncommented (n.kind ∈ declarationKinds) n.children := by
  cases n
  rw [uncommented, children, children, kind]

@[simp]
theorem text_uncommented (source : List UInt8) : n.uncommented.text source = n.text source := by
  rw [text, text, start_uncommented, stop_uncommented]

@[simp]
theorem position_uncommented (source : List UInt8)
    : n.uncommented.position source = n.position source := by
  rw [position, position, start_uncommented]

@[simp]
theorem stringValue_uncommented (source : List UInt8)
    : n.uncommented.stringValue source = n.stringValue source := by
  rw [stringValue, stringValue, text_uncommented, kind_uncommented]

@[simp]
theorem isStructural_uncommented : n.uncommented.isStructural = n.isStructural := by
  rw [isStructural, isStructural, named_uncommented, kind_uncommented]

end

theorem listUncommented_append (first : Bool) (before rest : List Cst)
    : listUncommented first (before ++ rest)
      = listUncommented first before ++ listUncommented (first && before.isEmpty) rest := by
  induction before generalizing first with
  | nil => simp [listUncommented]
  | cons c later ih =>
      rw [List.cons_append, listUncommented, listUncommented, ih]
      split <;> simp

/-- Trees that differ by a comment are the same without comments, by induction on where it stands. -/
theorem CommentAdded.uncommented_eq {n m : Cst} (added : CommentAdded n m)
    : m.uncommented = n.uncommented := by
  induction added with
  | @here kind field named start stop before after first last behind =>
      have unread : (decide (kind ∈ declarationKinds) && before.isEmpty) = false := by
        simpa using behind
      rw [uncommented, uncommented, listUncommented_append, listUncommented_append, unread]
      simp [listUncommented, isComment, Cst.kind, Cst.field]
  | @inside kind field named start stop before after n m added ih =>
      have same : m.isComment = n.isComment := by
        cases added <;> rfl
      rw [uncommented, uncommented, listUncommented_append, listUncommented_append, listUncommented,
        listUncommented, ih, same]

-----------------------------------------------------------------------------------------
-- Filters and searches
-----------------------------------------------------------------------------------------

/-- A filter takes no comments, and does not see those further down. -/
structure Blind (keep : Cst → Bool) : Prop where
  comment : ∀ n, n.isComment = true → keep n = false
  inside : ∀ n, keep n.uncommented = keep n

theorem Blind.filter_list {keep : Cst → Bool} (blind : Blind keep) (first : Bool) (ns : List Cst)
    : (listUncommented first ns).filter keep = (ns.filter keep).map uncommented := by
  induction ns generalizing first with
  | nil => rfl
  | cons n rest ih =>
      rw [listUncommented]
      split
      · next dropped =>
          have comment : n.isComment = true := (Bool.and_eq_true_iff.mp dropped).2
          rw [ih, List.filter_cons_of_neg (by simp [blind.comment n comment])]
      · cases kept : keep n with
        | false => simp [ih, blind.inside, kept]
        | true => simp [ih, blind.inside, kept]

theorem Blind.filter {keep : Cst → Bool} (blind : Blind keep) (n : Cst)
    : n.uncommented.children.filter keep = (n.children.filter keep).map uncommented := by
  rw [children_uncommented, blind.filter_list]

theorem Blind.find? {keep : Cst → Bool} (blind : Blind keep) (n : Cst)
    : n.uncommented.children.find? keep = (n.children.find? keep).map uncommented := by
  rw [← List.head?_filter, blind.filter, List.head?_map, List.head?_filter]

theorem blind_field (name : String) : Blind (·.field == some name) where
  comment n comment := by
    have unnamed : n.field = none := by simpa [isComment] using (Bool.and_eq_true_iff.mp comment).2
    simp [unnamed]
  inside n := by simp

/-- A filter that takes named nodes of certain kinds takes no comments. -/
theorem blind_kind {keep : Cst → Bool} (kinds : ∀ n, keep n = true → n.kind ≠ "comment")
    (inside : ∀ n, keep n.uncommented = keep n)
    : Blind keep where
  comment n comment := by
    have kind : n.kind = "comment" := by simpa using (Bool.and_eq_true_iff.mp comment).1
    exact Bool.eq_false_iff.mpr fun kept => kinds n kept kind
  inside := inside

theorem blind_isStructural : Blind isStructural :=
  blind_kind (fun n kept => by simpa using (Bool.and_eq_true_iff.mp kept).2)
    isStructural_uncommented

theorem parts_uncommented (n : Cst) : n.uncommented.parts = n.parts.map uncommented :=
  blind_isStructural.filter n

theorem field?_uncommented (n : Cst) (name : String)
    : n.uncommented.field? name = (n.field? name).map uncommented :=
  (blind_field name).find? n

/-- A further filter on the parts sees the same parts. -/
theorem filter_parts_uncommented {keep : Cst → Bool} (inside : ∀ n, keep n.uncommented = keep n)
    (n : Cst)
    : n.uncommented.parts.filter keep = (n.parts.filter keep).map uncommented := by
  rw [parts_uncommented, List.filter_map]
  exact congrArg _ (List.filter_congr fun c _ => inside c)

-----------------------------------------------------------------------------------------
-- Nodes that are read without their children
-----------------------------------------------------------------------------------------

section

variable (source : List UInt8) (n : Cst)

theorem map_text_uncommented (n? : Option Cst)
    : (n?.map uncommented).map (text source) = n?.map (text source) := by
  rw [Option.map_map]
  exact congrArg (n?.map ·) (funext fun c => text_uncommented c source)

theorem map_stringValue_uncommented (n? : Option Cst)
    : (n?.map uncommented).map (stringValue source) = n?.map (stringValue source) := by
  rw [Option.map_map]
  exact congrArg (n?.map ·) (funext fun c => stringValue_uncommented c source)

theorem fieldText_uncommented (name : String)
    : n.uncommented.fieldText source name = n.fieldText source name := by
  rw [fieldText, fieldText, field?_uncommented, map_text_uncommented]

theorem toAttribute_uncommented : toAttribute source n.uncommented = toAttribute source n := by
  rw [toAttribute, toAttribute, position_uncommented, parts_uncommented, List.head?_map,
    map_text_uncommented, ← List.map_tail, List.getLast?_map]
  cases n.parts.tail.getLast? with
  | none => rfl
  | some last =>
      simp only [Option.map_some, kind_uncommented, stringValue_uncommented]

theorem insertOffset_uncommented : n.uncommented.insertOffset = n.insertOffset := by
  have written (n : Cst) : n.uncommented.isTagAttribute = n.isTagAttribute := by
    rw [isTagAttribute, isTagAttribute, kind_uncommented]
  rw [insertOffset, insertOffset, filter_parts_uncommented written, List.foldl_map,
    field?_uncommented, Option.map_map]
  simp only [stop_uncommented]
  exact congrArg (List.foldl _ · _) (congrArg ((n.field? "name").map ·) (funext stop_uncommented))

theorem toNamedSpecifier_uncommented
    : toNamedSpecifier source n.uncommented = toNamedSpecifier source n := by
  rw [toNamedSpecifier, toNamedSpecifier, position_uncommented, field?_uncommented,
    field?_uncommented, map_text_uncommented, map_stringValue_uncommented]

theorem toSpecifiers_uncommented : toSpecifiers source n.uncommented = toSpecifiers source n := by
  have ofKind (kind : String) (n : Cst) : (n.uncommented.kind == kind) = (n.kind == kind) := by
    rw [kind_uncommented]
  rw [toSpecifiers, toSpecifiers, position_uncommented, kind_uncommented, text_uncommented,
    filter_parts_uncommented (ofKind _), filter_parts_uncommented (ofKind _), List.getLast?_map,
    List.map_map, show toNamedSpecifier source ∘ uncommented = toNamedSpecifier source from
      funext (toNamedSpecifier_uncommented source)]
  split
  · rfl
  · cases (n.parts.filter (·.kind == "identifier")).getLast? with
    | none => rfl
    | some name => simp only [Option.map_some, text_uncommented]
  · rfl
  · rfl

theorem toImport_uncommented : toImport source n.uncommented = toImport source n := by
  have blind : Blind fun c => c.named && c.kind == "import_clause" :=
    blind_kind (fun c kept => by
        have kind : c.kind = "import_clause" := by simpa using (Bool.and_eq_true_iff.mp kept).2
        simp [kind])
      fun c => by rw [named_uncommented, kind_uncommented]
  rw [toImport, toImport, position_uncommented, blind.filter, field?_uncommented,
    map_stringValue_uncommented, List.flatMap_map]
  simp only [parts_uncommented, List.flatMap_map, toSpecifiers_uncommented]

theorem toProperty?_uncommented : toProperty? source n.uncommented = toProperty? source n := by
  rw [toProperty?, toProperty?, kind_uncommented, text_uncommented, position_uncommented,
    fieldText_uncommented, field?_uncommented]
  split
  · rfl
  · cases n.field? "value" with
    | none => rfl
    | some value => simp only [Option.map_some, kind_uncommented, text_uncommented]
  · rfl

/-- A tag name is read from the same fields and parts, by induction on size. -/
theorem toTagName_uncommented : toTagName source n.uncommented = toTagName source n := by
  induction n using sizeInduction with
  | step n ih =>
      have below (c : Cst) (child : c ∈ n.children) := ih c (sizeOf_lt_of_child child)
      have found {keep : Cst → Bool} (blind : Blind keep)
          : ((n.uncommented.children.find? keep).map (toTagName source)).getD .absent
            = ((n.children.find? keep).map (toTagName source)).getD .absent := by
        rw [blind.find?]
        cases taken : n.children.find? keep with
        | none => rfl
        | some c => exact below c (List.mem_of_find?_eq_some taken)
      cases n with
      | node kind field named start stop children =>
          have unfolded
              : (node kind field named start stop children).uncommented
                = node kind field named start stop
                    (listUncommented (kind ∈ declarationKinds) children) := by
            rw [uncommented]
          have byField := found (blind_field "object")
          have byPart := found blind_isStructural
          rw [unfolded] at byField byPart ⊢
          simp only [Cst.children] at byField byPart
          rw [toTagName, toTagName, fieldToTagName_eq, firstToTagName_eq, fieldToTagName_eq,
            firstToTagName_eq, byField, byPart, ← unfolded, position_uncommented, text_uncommented,
            parts_uncommented, field?_uncommented, field?_uncommented]
          generalize (node kind field named start stop children).parts = parts
          generalize (node kind field named start stop children).field? "object" = object
          generalize (node kind field named start stop children).field? "property" = property
          refine if_congr Iff.rfl rfl (if_congr Iff.rfl ?_ (if_congr Iff.rfl ?_ rfl))
          · rcases parts with _ | ⟨space, _ | ⟨name, _ | _⟩⟩ <;>
              simp only [List.map_nil, List.map_cons, text_uncommented]
          · rcases parts with _ | ⟨space, _ | ⟨name, _ | _⟩⟩ <;>
              cases object <;>
              cases property <;>
              simp only [Option.map_none, Option.map_some, List.map_nil, List.map_cons,
                text_uncommented]

end

-----------------------------------------------------------------------------------------
-- Nodes that are read with their children
-----------------------------------------------------------------------------------------

/-- A node gives the same syntax without comments. -/
def Unaffected (source : List UInt8) (n : Cst) : Prop :=
  ∀ exported, toAst source exported n.uncommented = toAst source exported n

section

variable {source : List UInt8} {n : Cst}

theorem Blind.map_filter {α : Type} {keep : Cst → Bool} (blind : Blind keep) {f : Cst → α}
    (each : ∀ c ∈ n.children, f c.uncommented = f c)
    : (n.uncommented.children.filter keep).map f = (n.children.filter keep).map f := by
  rw [blind.filter, List.map_map]
  exact List.map_congr_left fun c member => each c (List.mem_of_mem_filter member)

theorem Blind.map_find? {α : Type} {keep : Cst → Bool} (blind : Blind keep) {f : Cst → α}
    (each : ∀ c ∈ n.children, f c.uncommented = f c)
    : (n.uncommented.children.find? keep).map f = (n.children.find? keep).map f := by
  rw [← List.head?_filter, ← List.head?_filter, ← List.head?_map, ← List.head?_map,
    blind.map_filter each]

theorem list_unaffected (each : ∀ c ∈ n.children, c.Unaffected source) (exported : Bool)
    : listToAst source exported n.uncommented.children = listToAst source exported n.children := by
  rw [listToAst_eq, listToAst_eq, blind_isStructural.map_filter fun c child => each c child exported]

theorem first_unaffected (each : ∀ c ∈ n.children, c.Unaffected source)
    : firstToAst source n.uncommented.children = firstToAst source n.children := by
  rw [firstToAst_eq, firstToAst_eq, blind_isStructural.map_find? fun c child => each c child false]

theorem field_unaffected (each : ∀ c ∈ n.children, c.Unaffected source) (name : String)
    : fieldToAst source name n.uncommented.children = fieldToAst source name n.children := by
  rw [fieldToAst_eq, fieldToAst_eq, (blind_field name).map_find? fun c child => each c child false]

theorem content_unaffected (each : ∀ c ∈ n.children, c.Unaffected source)
    : contentToAst source n.uncommented.children = contentToAst source n.children := by
  have blind : Blind isContent :=
    blind_kind (fun c kept => by
        have structural : c.isStructural = true := by
          simp only [isContent, Bool.and_eq_true] at kept
          exact kept.1.1
        simpa using (Bool.and_eq_true_iff.mp structural).2)
      fun c => by rw [isContent, isContent, isStructural_uncommented, kind_uncommented]
  rw [contentToAst_eq, contentToAst_eq, blind.map_filter fun c child => each c child false]

theorem declarators_unaffected (each : ∀ c ∈ n.children, c.Unaffected source)
    : declaratorsToAst source n.uncommented.children = declaratorsToAst source n.children := by
  have blind : Blind fun c => c.isStructural && c.kind == "variable_declarator" :=
    blind_kind (fun c kept => by
        have kind : c.kind = "variable_declarator" := by
          simpa using (Bool.and_eq_true_iff.mp kept).2
        simp [kind])
      fun c => by rw [isStructural_uncommented, kind_uncommented]
  rw [declaratorsToAst_eq, declaratorsToAst_eq, blind.map_filter fun c child => each c child false]

/-- All smaller nodes give the same syntax without comments. -/
def SmallerUnaffected (source : List UInt8) (n : Cst) : Prop :=
  ∀ m : Cst, sizeOf m < sizeOf n → m.Unaffected source

theorem SmallerUnaffected.each (smaller : n.SmallerUnaffected source)
    : ∀ c ∈ n.children, c.Unaffected source :=
  fun c child => smaller c (sizeOf_lt_of_child child)

theorem SmallerUnaffected.child (smaller : n.SmallerUnaffected source) {c : Cst}
    (child : c ∈ n.children)
    : c.SmallerUnaffected source :=
  fun m less => smaller m (Nat.lt_trans less (sizeOf_lt_of_child child))

theorem members_unaffected (smaller : n.SmallerUnaffected source)
    : membersToAst source n.uncommented.children = membersToAst source n.children := by
  rw [membersToAst_eq, membersToAst_eq, (blind_field "body").map_find? fun c child => ?_]
  rw [kind_uncommented, list_unaffected (smaller.child child).each]

theorem attributes_unaffected (smaller : n.SmallerUnaffected source)
    : attributesToAst source n.uncommented.children = attributesToAst source n.children := by
  have part (c : Cst) (child : c ∈ n.children)
      : tagPartToAst source c.uncommented = tagPartToAst source c := by
    rw [tagPartToAst, tagPartToAst, kind_uncommented, position_uncommented, toAttribute_uncommented,
      list_unaffected (smaller.child child).each]
  have blind : Blind fun c => c.isTagAttribute && c.isStructural :=
    blind_kind (fun c kept => by
        simpa using (Bool.and_eq_true_iff.mp (Bool.and_eq_true_iff.mp kept).2).2)
      fun c => by rw [isTagAttribute, isTagAttribute, isStructural_uncommented, kind_uncommented]
  rw [attributesToAst_eq, attributesToAst_eq, List.filter_filter, List.filter_filter,
    blind.map_filter part]

theorem element_unaffected (smaller : n.SmallerUnaffected source) (element : n.kind = "jsx_element")
    : n.Unaffected source := by
  intro exported
  have kind : n.uncommented.kind = "jsx_element" := (kind_uncommented n).trans element
  have content := content_unaffected smaller.each
  by_cases nameless : ∀ tag, n.field? "open_tag" = some tag → tag.field? "name" = none
  · have nameless' (tag : Cst) (opens : n.uncommented.field? "open_tag" = some tag)
        : tag.field? "name" = none := by
      rw [field?_uncommented] at opens
      obtain ⟨original, found, rfl⟩ := Option.map_eq_some_iff.mp opens
      rw [field?_uncommented, nameless original found, Option.map_none]
    rw [toAst_of_nameless source exported element nameless,
      toAst_of_nameless source exported kind nameless', content, position_uncommented]
  · push Not at nameless
    obtain ⟨tag, opens, name⟩ := nameless
    obtain ⟨name, named⟩ := Option.ne_none_iff_exists'.mp name
    have opens' : n.uncommented.field? "open_tag" = some tag.uncommented := by
      rw [field?_uncommented, opens, Option.map_some]
    have named' : tag.uncommented.field? "name" = some name.uncommented := by
      rw [field?_uncommented, named, Option.map_some]
    rw [toAst_of_name source exported element opens named,
      toAst_of_name source exported kind opens' named', content, position_uncommented,
      toTagName_uncommented, insertOffset_uncommented,
      attributes_unaffected (smaller.child (List.mem_of_find?_eq_some opens))]

/-- The word that a declaration starts with is that of its first child, which is kept. -/
theorem head?_uncommented (source : List UInt8) (n : Cst) (declaration : n.kind ∈ declarationKinds)
    : n.uncommented.children.head?.map (text source) = n.children.head?.map (text source) := by
  rw [children_uncommented, decide_eq_true declaration]
  cases n.children with
  | nil => rfl
  | cons c rest => simp [listUncommented]

/-- Every node gives the same syntax without comments, by induction on size and cases on the
construct.
-/
theorem unaffected (n : Cst) : n.Unaffected source := by
  induction n using sizeInduction with
  | step n smaller =>
      have smaller : n.SmallerUnaffected source := smaller
      by_cases element : n.kind = "jsx_element"
      · exact element_unaffected smaller element
      intro exported
      have each := smaller.each
      have list := list_unaffected each
      have first := first_unaffected each
      have field := field_unaffected each
      have declarators := declarators_unaffected each
      have members := members_unaffected smaller
      have attributes := attributes_unaffected smaller
      cases n with
      | node kind field' named start stop children =>
          have unfolded
              : (node kind field' named start stop children).uncommented
                = node kind field' named start stop
                    (listUncommented (kind ∈ declarationKinds) children) := by
            rw [uncommented]
          rw [unfolded] at list first field declarators members attributes
          simp only [Cst.children] at list first field declarators members attributes
          cases construct : Construct.ofKind kind with
          | element => exact absurd (kind_of_construct construct) element
          | name | string | jsxText =>
              rw [unfolded]
              simp only [toAst, construct]
              rw [← unfolded]
              simp only [position_uncommented, text_uncommented, stringValue_uncommented]
          | importStatement =>
              rw [unfolded]
              simp only [toAst, construct]
              rw [← unfolded, toImport_uncommented]
          | objectPattern =>
              rw [unfolded]
              simp only [toAst, construct]
              rw [← unfolded, position_uncommented, parts_uncommented, List.filterMap_map,
                show toProperty? source ∘ uncommented = toProperty? source from
                  funext (toProperty?_uncommented source)]
          | variableDeclaration =>
              have declaration : kind ∈ declarationKinds := by
                have member := mem_kindsOf (construct.trans_ne (by decide))
                rwa [construct] at member
              have word := head?_uncommented source (node kind field' named start stop children)
                declaration
              rw [unfolded] at word ⊢
              simp only [Cst.children] at word
              simp only [toAst, construct, declarators, word]
              rw [← unfolded, position_uncommented]
          | declarator | arrow | conditional =>
              rw [unfolded]
              simp only [toAst, construct, field]
              rw [← unfolded, position_uncommented]
          | functionStatement | classStatement =>
              rw [unfolded]
              simp only [toAst, construct, field, members]
              rw [← unfolded, position_uncommented, field?_uncommented, map_text_uncommented]
          | method | member =>
              rw [unfolded]
              simp only [toAst, construct, field]
              rw [← unfolded, position_uncommented, fieldText_uncommented]
          | returnStatement | jsxExpression =>
              rw [unfolded]
              simp only [toAst, construct, first]
              rw [← unfolded, position_uncommented]
          | classExpression =>
              rw [unfolded]
              simp only [toAst, construct, list, members]
              rw [← unfolded, position_uncommented, field?_uncommented, map_text_uncommented]
          | block | other =>
              rw [unfolded]
              simp only [toAst, construct, list]
              rw [← unfolded, position_uncommented]
          | selfClosingElement =>
              rw [unfolded]
              simp only [toAst, construct, attributes]
              rw [← unfolded, position_uncommented, field?_uncommented, insertOffset_uncommented,
                Option.map_map, show toTagName source ∘ uncommented = toTagName source from
                  funext (toTagName_uncommented source)]
          | parentheses =>
              rw [unfolded]
              simp only [toAst, construct, list, first]
              rw [← unfolded, position_uncommented, parts_uncommented, List.length_map]

/-- A comment more makes no difference to the program of a file. -/
theorem CommentAdded.toProgram_eq {root root' : Cst} (added : CommentAdded root root')
    (filename : String)
    : toProgram filename source root' = toProgram filename source root := by
  have body (root : Cst)
      : listToAst source (root.kind == exportKind) root.children
        = listToAst source (root.uncommented.kind == exportKind) root.uncommented.children := by
    rw [kind_uncommented, list_unaffected fun c _ => unaffected c]
  rw [toProgram, toProgram, body, added.uncommented_eq, ← body]

end

end JsxProvenance.Cst
