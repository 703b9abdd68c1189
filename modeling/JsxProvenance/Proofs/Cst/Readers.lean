import Mathlib.Data.List.ReduceOption
import JsxProvenance.Proofs.Cst.Conversion

/-! What single concrete nodes give, read with all looks that can go wrong. Something may be asked of
a node that is not there, and an item may be taken from a list that has none; either stops the
reading. Each reader looks first, so none of them ever stops.
-/

namespace JsxProvenance.Cst

open Ast

/-- What stops a reader of concrete nodes. -/
inductive Stop where
  /-- Something was asked of a node that is not there. -/
  | noNode (asked : String)
  /-- An item was taken from a list that does not have it. -/
  | noItem
  /-- A list was taken apart into two items, of which it has more or less. -/
  | noPair
  deriving DecidableEq, Repr, Inhabited

-----------------------------------------------------------------------------------------
-- Looks that can go wrong
-----------------------------------------------------------------------------------------

section

variable {α : Type}

/-- The node that something is asked of. -/
def ask (n? : Option α) (asked : String) : Except Stop α :=
  match n? with
  | some n => .ok n
  | none => .error (.noNode asked)

/-- An item of a list. -/
def item (items : List α) (i : Nat) : Except Stop α :=
  match items[i]? with
  | some a => .ok a
  | none => .error .noItem

/-- The last item of a list. -/
def lastItem (items : List α) : Except Stop α :=
  match items.getLast? with
  | some a => .ok a
  | none => .error .noItem

/-- The only two items of a list. -/
def pair (items : List α) : Except Stop (α × α) :=
  match items with
  | [first, second] => .ok (first, second)
  | _ => .error .noPair

/-- The syntax of a node that may be missing. -/
def readOptional (read : α → Except Stop Node) (n? : Option α) : Except Stop Node :=
  match n? with
  | some n => read n
  | none => .ok .absent

/-- The syntax of the first of some nodes, if there is one. -/
def readFirst (read : α → Except Stop Node) (ns : List α) : Except Stop Node := do
  if ns.isEmpty then
    return .absent
  else
    let n ← item ns 0
    read n

theorem lastItem_eq {items : List α} {a : α} (there : items.getLast? = some a)
    : lastItem items = .ok a := by
  rw [lastItem, there]

variable {read : α → Except Stop Node} {made : α → Node}

theorem readOptional_eq (reads : ∀ a, read a = .ok (made a)) (n? : Option α)
    : readOptional read n? = .ok ((n?.map made).getD .absent) := by
  cases n? with
  | none => rfl
  | some n => exact reads n

theorem readFirst_eq (reads : ∀ a, read a = .ok (made a)) (ns : List α)
    : readFirst read ns = .ok ((ns.head?.map made).getD .absent) := by
  cases ns with
  | nil => rfl
  | cons n rest => exact reads n

section

variable {β : Type} {read : α → Except Stop β} {made : α → β}

/-- A list is read to its end if each of its items is read. -/
theorem mapM_eq_of_mem {items : List α} (reads : ∀ a ∈ items, read a = .ok (made a))
    : items.mapM read = .ok (items.map made) := by
  induction items with
  | nil => rfl
  | cons first rest ih =>
      obtain ⟨head, others⟩ := List.forall_mem_cons.mp reads
      rw [List.mapM_cons, head, ih others]
      rfl

theorem mapM_eq (reads : ∀ a, read a = .ok (made a)) (items : List α)
    : items.mapM read = .ok (items.map made) :=
  mapM_eq_of_mem fun a _ => reads a

end

end

/-- A child of a node. -/
abbrev Child (n : Cst) : Type :=
  {c : Cst // c ∈ n.children}

/-- The children that are part of the structure. -/
def childParts (n : Cst) : List n.Child :=
  n.children.attach.filter (isStructural ·.1)

/-- The first child that fills a field. -/
def childField? (n : Cst) (name : String) : Option n.Child :=
  n.children.attach.find? (·.1.field == some name)

theorem map_childParts (n : Cst) : n.childParts.map (·.1) = n.parts := by
  rw [childParts, parts]
  exact (List.filter_map (f := fun c : n.Child => c.1) (p := isStructural)).symm.trans
    (congrArg _ (List.attach_map_subtype_val _))

theorem length_childParts (n : Cst) : n.childParts.length = n.parts.length := by
  rw [← map_childParts, List.length_map]

theorem map_childField? (n : Cst) (name : String)
    : (n.childField? name).map (·.1) = n.field? name := by
  rw [childField?, field?]
  exact (List.find?_map (f := fun c : n.Child => c.1) (p := (·.field == some name))).symm.trans
    (congrArg _ (List.attach_map_subtype_val _))

section

variable {n : Cst} {read : Cst → Except Stop Node} {made : Cst → Node}

/-- A field is read if each child is. -/
theorem readField_eq (reads : ∀ c : n.Child, read c.1 = .ok (made c.1)) (name : String)
    : readOptional (fun c => read c.1) (n.childField? name)
      = .ok (((n.children.find? (·.field == some name)).map made).getD .absent) := by
  rw [readOptional_eq reads, ← field?, ← map_childField?, Option.map_map]
  rfl

/-- The first part is read if each child is. -/
theorem readFirstPart_eq (reads : ∀ c : n.Child, read c.1 = .ok (made c.1))
    : readFirst (fun c => read c.1) n.childParts
      = .ok (((n.children.find? isStructural).map made).getD .absent) := by
  rw [readFirst_eq reads, ← List.head?_filter, ← parts, ← map_childParts, List.head?_map,
    Option.map_map]
  rfl

/-- Some of the parts are read if each child is. -/
theorem readParts_eq (reads : ∀ c : n.Child, read c.1 = .ok (made c.1)) (keep : Cst → Bool)
    : (n.childParts.filter (keep ·.1)).mapM (fun c => read c.1)
      = .ok ((n.parts.filter keep).map made) := by
  rw [mapM_eq reads, ← map_childParts, List.filter_map, List.map_map]
  rfl

end

section

variable (source : List UInt8)

-----------------------------------------------------------------------------------------
-- Readers of single nodes
-----------------------------------------------------------------------------------------

/-- The text of a node, empty if there is none. -/
def textOf (n? : Option Cst) : String :=
  (n?.map (text source)).getD ""

/-- The text between the quotes of a string, and the whole text of any other node. -/
def readString (n? : Option Cst) : Except Stop String := do
  let whole := (textOf source n?).toList
  let n ← ask n? "type"
  if n.kind = "string" ∧ 2 ≤ whole.length then
    let first ← item whole 0
    let last ← lastItem whole
    if first = last ∧ (first = '\'' ∨ first = '"') then
      return String.ofList whole.tail.dropLast
    else return String.ofList whole
  else return String.ofList whole

/-- The text between the quotes of a string that may be missing. -/
def readStringOrEmpty (n? : Option Cst) : Except Stop String :=
  if n?.isSome then readString source n? else return ""

/-- One binding of a named import. -/
def readNamedSpecifier (n : Cst) : Except Stop Node := do
  let imported ← readStringOrEmpty source (n.field? "name")
  let alias? := n.field? "alias"
  let localName := if alias?.isSome then textOf source alias? else imported
  return .leaf (n.position source) (.importSpecifier "named" (some imported) localName)

/-- The bindings that one part of an import clause makes. -/
def readSpecifiers (n : Cst) : Except Stop (List Node) := do
  let position := n.position source
  if n.kind = "identifier" then
    return [.leaf position (.importSpecifier "default" (some "default") (n.text source))]
  else if n.kind = "namespace_import" then
    let names := n.parts.filter (·.kind == "identifier")
    if names.isEmpty then
      return []
    else
      let name ← lastItem names
      return [.leaf position (.importSpecifier "namespace" none (name.text source))]
  else if n.kind = "named_imports" then
    (n.parts.filter (·.kind == "import_specifier")).mapM (readNamedSpecifier source)
  else return []

/-- An import. -/
def readImport (n : Cst) : Except Stop Node := do
  let module ← readStringOrEmpty source (n.field? "source")
  let clauses := n.children.filter fun c => c.named && c.kind == "import_clause"
  let specifiers ← (clauses.flatMap parts).mapM (readSpecifiers source)
  return .group (n.position source) (.importDeclaration module) specifiers.flatten

/-- The word that starts a declaration. -/
def readDeclarationWord (n : Cst) : Except Stop String := do
  if n.children.isEmpty then
    return "var"
  else
    let word ← item n.children 0
    return word.text source

/-- The entry that one part of an object pattern makes. -/
def readProperty? (n : Cst) : Except Stop (Option Node) := do
  if n.kind = "shorthand_property_identifier_pattern" then
    let name := n.text source
    return some (.leaf (n.position source) (.patternProperty name (some name)))
  else if n.kind = "pair_pattern" then
    let value? := n.field? "value"
    let key := textOf source (n.field? "key")
    if value?.isSome then
      let value ← ask value? "type"
      let bound := if value.kind = "identifier" then some (value.text source) else none
      return some (.leaf (n.position source) (.patternProperty key bound))
    else return some (.leaf (n.position source) (.patternProperty key none))
  else return none

/-- An object pattern. -/
def readObjectPattern (n : Cst) : Except Stop Node := do
  let entries ← n.parts.mapM (readProperty? source)
  return .group (n.position source) .objectPattern entries.reduceOption

/-- An attribute with a name. -/
def readAttribute (n : Cst) : Except Stop Node := do
  let parts := n.parts
  let name ← if parts.isEmpty then pure "" else text source <$> item parts 0
  if 1 < parts.length then
    let last ← lastItem parts
    if last.kind = "string" then
      let value ← readString source (some last)
      return .leaf (n.position source) (.jsxAttribute name (some value) false)
    else return .leaf (n.position source) (.jsxAttribute name none false)
  else return .leaf (n.position source) (.jsxAttribute name none false)

/-- The tag name that a node gives. -/
def readTagName (n : Cst) : Except Stop Node := do
  let position := n.position source
  if n.kind ∈ nameKinds then
    return .leaf position (.jsxIdentifier (n.text source))
  else if n.kind = "jsx_namespace_name" ∧ n.parts.length = 2 then
    let space ← item n.parts 0
    let name ← item n.parts 1
    return .leaf position (.jsxNamespacedName (space.text source) (name.text source))
  else if n.kind ∈ dottedKinds then
    let property? := n.field? "property"
    if (n.childField? "object").isNone ∨ property?.isNone then
      if n.childParts.length = 2 then
        let (object, property) ← pair n.childParts
        let before ← readTagName object.1
        return .wrap position (.jsxMemberExpression (property.1.text source)) before
      else return .absent
    else
      let before ← readOptional (fun object => readTagName object.1) (n.childField? "object")
      return .wrap position (.jsxMemberExpression (textOf source property?)) before
  else return .absent
termination_by sizeOf n
decreasing_by all_goals exact sizeOf_lt_of_child object.2

/-- Where new attributes of a tag are written. -/
def readInsertOffset (tag : Cst) : Except Stop (Option Nat) := do
  let name? := tag.field? "name"
  let offset ← if name?.isSome then (some ·.stop) <$> ask name? "end_byte" else pure none
  return (tag.parts.filter isTagAttribute).foldl
    (fun offset n => some (max (offset.getD 0) n.stop)) offset

-----------------------------------------------------------------------------------------
-- No reader of a single node stops
-----------------------------------------------------------------------------------------

theorem readString_eq (n : Cst) : readString source (some n) = .ok (n.stringValue source) := by
  change (if n.kind = "string" ∧ 2 ≤ (n.text source).toList.length then _ else _) = _
  rw [stringValue]
  change (if n.kind = "string" ∧ 2 ≤ (n.text source).toList.length then
      (do
        let first ← item (n.text source).toList 0
        let last ← lastItem (n.text source).toList
        if first = last ∧ (first = '\'' ∨ first = '"') then
          return String.ofList (n.text source).toList.tail.dropLast
        else return String.ofList (n.text source).toList)
    else .ok (String.ofList (n.text source).toList)) = _
  cases whole : (n.text source).toList with
  | nil => simp
  | cons first others =>
      cases others with
      | nil => simp
      | cons second rest =>
          obtain ⟨last, ends⟩ : ∃ last, (first :: second :: rest).getLast? = some last :=
            ⟨_, List.getLast?_eq_some_getLast (List.cons_ne_nil _ _)⟩
          obtain ⟨init, backwards⟩ : ∃ init, (first :: second :: rest).reverse = last :: init := by
            rw [List.getLast?_eq_head?_reverse] at ends
            exact List.head?_eq_some_iff.mp ends
          by_cases kind : n.kind = "string"
          · rw [if_pos ⟨kind, by simp⟩, lastItem_eq ends, backwards, kind]
            change (if first = last ∧ (first = '\'' ∨ first = '"') then _ else _)
              = Except.ok (if first = last ∧ (first = '\'' ∨ first = '"') then _ else _)
            split <;> rfl
          · rw [if_neg fun both => kind both.1]
            split
            · next isString _ _ => exact absurd isString kind
            · rfl

theorem readStringOrEmpty_eq (n? : Option Cst)
    : readStringOrEmpty source n? = .ok ((n?.map (stringValue source)).getD "") := by
  cases n? with
  | none => rfl
  | some n => exact readString_eq source n

theorem readNamedSpecifier_eq (n : Cst)
    : readNamedSpecifier source n = .ok (toNamedSpecifier source n) := by
  rw [readNamedSpecifier, readStringOrEmpty_eq, toNamedSpecifier]
  cases n.field? "alias" <;> rfl

theorem readSpecifiers_eq (n : Cst) : readSpecifiers source n = .ok (toSpecifiers source n) := by
  rw [readSpecifiers, toSpecifiers]
  split
  · next kind =>
      rw [kind]
      rfl
  · next other =>
      split
      · next kind =>
          rw [kind]
          cases last : (n.parts.filter (·.kind == "identifier")).getLast? with
          | none =>
              rw [List.getLast?_eq_none_iff.mp last]
              rfl
          | some name =>
              obtain ⟨before, names⟩ := List.getLast?_eq_some_iff.mp last
              rw [if_neg (by rw [names]; simp), lastItem_eq last]
              rfl
      · next another =>
          split
          · next kind =>
              rw [kind, mapM_eq (readNamedSpecifier_eq source)]
              rfl
          · next unknown =>
              split
              · next kind => exact absurd kind other
              · next kind => exact absurd kind another
              · next kind => exact absurd kind unknown
              · rfl

theorem readImport_eq (n : Cst) : readImport source n = .ok (toImport source n) := by
  rw [readImport, readStringOrEmpty_eq]
  simp only [mapM_eq (readSpecifiers_eq source)]
  change Except.ok _ = _
  rw [← List.flatMap_def, List.flatMap_assoc]
  rfl

theorem readDeclarationWord_eq (n : Cst)
    : readDeclarationWord source n = .ok ((n.children.head?.map (text source)).getD "var") := by
  rw [readDeclarationWord]
  cases n.children <;> rfl

theorem readProperty?_eq (n : Cst) : readProperty? source n = .ok (toProperty? source n) := by
  rw [readProperty?, toProperty?]
  split
  · next kind =>
      rw [kind]
      rfl
  · next other =>
      split
      · next kind =>
          rw [kind]
          cases n.field? "value" with
          | none => rfl
          | some value =>
              by_cases bound : value.kind = "identifier"
              · simp [ask, bound, fieldText, textOf]
              · simp [ask, bound, fieldText, textOf]
      · next another =>
          split
          · next kind => exact absurd kind other
          · next kind => exact absurd kind another
          · rfl

theorem readObjectPattern_eq (n : Cst)
    : readObjectPattern source n
      = .ok (.group (n.position source) .objectPattern (n.parts.filterMap (toProperty? source))) := by
  rw [readObjectPattern, mapM_eq (readProperty?_eq source)]
  change Except.ok (Node.group _ .objectPattern ((n.parts.map (toProperty? source)).filterMap id)) = _
  rw [List.filterMap_map]
  rfl

theorem readAttribute_eq (n : Cst) : readAttribute source n = .ok (toAttribute source n) := by
  rw [readAttribute, toAttribute]
  cases n.parts with
  | nil => rfl
  | cons first rest =>
      cases rest with
      | nil => rfl
      | cons second others =>
          obtain ⟨last, ends⟩ : ∃ last, (second :: others).getLast? = some last :=
            ⟨_, List.getLast?_eq_some_getLast (List.cons_ne_nil _ _)⟩
          have whole : (first :: second :: others).getLast? = some last := by
            rw [List.getLast?_cons_cons, ends]
          rw [lastItem_eq whole, List.tail_cons, ends]
          change (if last.kind = "string" then readString source (some last) >>= _ else _) = _
          by_cases kind : last.kind = "string"
          · rw [if_pos kind, readString_eq]
            simp only [kind]
            rfl
          · rw [if_neg kind]
            simp only [beq_eq_false_iff_ne.mpr kind]
            rfl

theorem toTagName_of_name {n : Cst} (plain : n.kind ∈ nameKinds)
    : toTagName source n = .leaf (n.position source) (.jsxIdentifier (n.text source)) := by
  cases n
  rw [toTagName, if_pos (by exact plain)]

theorem toTagName_of_space {n : Cst} (spaced : n.kind = "jsx_namespace_name")
    : toTagName source n
      = match n.parts with
        | [space, name] =>
            .leaf (n.position source) (.jsxNamespacedName (space.text source) (name.text source))
        | _ => .absent := by
  cases n
  cases spaced
  rw [toTagName]
  rfl

theorem toTagName_of_dots {n : Cst} (plain : n.kind ∉ nameKinds)
    (spaced : n.kind ≠ "jsx_namespace_name") (dotted : n.kind ∈ dottedKinds)
    : toTagName source n
      = match n.field? "object", n.field? "property" with
        | some object, some property =>
            .wrap (n.position source) (.jsxMemberExpression (property.text source))
              (toTagName source object)
        | _, _ =>
            match n.parts with
            | [object, property] =>
                .wrap (n.position source) (.jsxMemberExpression (property.text source))
                  (toTagName source object)
            | _ => .absent := by
  cases n with
  | node kind field named start stop children =>
      have spaced : (kind == "jsx_namespace_name") = false := beq_eq_false_iff_ne.mpr spaced
      rw [toTagName, if_neg (by exact plain), spaced, if_neg Bool.false_ne_true,
        if_pos (by exact dotted), fieldToTagName_eq, firstToTagName_eq]
      have first
          : children.find? isStructural = (parts (.node kind field named start stop children)).head? :=
        List.head?_filter.symm
      rw [first, ← show Cst.field? (.node kind field named start stop children) "object"
        = children.find? (·.field == some "object") from rfl]
      cases Cst.field? (.node kind field named start stop children) "object" <;>
        cases Cst.field? (.node kind field named start stop children) "property" <;>
        rcases parts _ with _ | ⟨object, _ | ⟨property, _ | ⟨third, rest⟩⟩⟩ <;>
        rfl

theorem toTagName_of_other {n : Cst} (plain : n.kind ∉ nameKinds)
    (spaced : n.kind ≠ "jsx_namespace_name") (dotted : n.kind ∉ dottedKinds)
    : toTagName source n = .absent := by
  cases n with
  | node kind field named start stop children =>
      have spaced : (kind == "jsx_namespace_name") = false := beq_eq_false_iff_ne.mpr spaced
      rw [toTagName, if_neg (by exact plain), spaced, if_neg Bool.false_ne_true,
        if_neg (by exact dotted)]

/-- A name of two parts is read from them, if what they hold is. -/
theorem readTwoParts_eq {n : Cst}
    (below : ∀ c : n.Child, readTagName source c.1 = .ok (toTagName source c.1))
    : (if n.childParts.length = 2 then do
        let (object, property) ← pair n.childParts
        let before ← readTagName source object.1
        return Node.wrap (n.position source)
          (.jsxMemberExpression (property.1.text source)) before
      else return Node.absent)
    = .ok (match n.parts with
      | [object, property] =>
          .wrap (n.position source) (.jsxMemberExpression (property.text source))
            (toTagName source object)
      | _ => .absent) := by
  rw [← map_childParts]
  rcases n.childParts with _ | ⟨object, _ | ⟨property, _ | ⟨third, rest⟩⟩⟩
  · rfl
  · rfl
  · change (do
      let before ← readTagName source object.1
      return Node.wrap (n.position source)
        (.jsxMemberExpression (property.1.text source)) before) = _
    rw [below]
    rfl
  · simp [pure, Except.pure]

/-- The tag name of a node is read to its end, by induction on size. -/
theorem readTagName_eq (n : Cst) : readTagName source n = .ok (toTagName source n) := by
  induction n using sizeInduction with
  | step n ih =>
      have below (c : n.Child) : readTagName source c.1 = .ok (toTagName source c.1) :=
        ih c.1 (sizeOf_lt_of_child c.2)
      have objects : (n.childField? "object").isNone = (n.field? "object").isNone := by
        rw [← map_childField?, Option.isNone_map]
      rw [readTagName]
      simp only [readField_eq below, objects, readTwoParts_eq source below]
      by_cases plain : n.kind ∈ nameKinds
      · rw [if_pos plain, toTagName_of_name source plain]
        rfl
      · rw [if_neg plain]
        by_cases spaced : n.kind = "jsx_namespace_name"
        · rw [toTagName_of_space source spaced]
          rcases n.parts with _ | ⟨space, _ | ⟨name, _ | ⟨third, rest⟩⟩⟩
          · simp [spaced, dottedKinds, pure, Except.pure]
          · simp [spaced, dottedKinds, pure, Except.pure]
          · rw [if_pos ⟨spaced, rfl⟩]
            rfl
          · simp [spaced, dottedKinds, pure, Except.pure]
        · rw [if_neg fun both => spaced both.1]
          by_cases dotted : n.kind ∈ dottedKinds
          · rw [if_pos dotted, toTagName_of_dots source plain spaced dotted]
            change (if (n.field? "object").isNone = true ∨ _ then _ else
              Except.ok (((n.field? "object").map _).getD Node.absent) >>= _) = _
            cases n.field? "object" with
            | none => rfl
            | some object => cases n.field? "property" <;> rfl
          · rw [if_neg dotted, toTagName_of_other source plain spaced dotted]
            rfl

theorem readInsertOffset_eq (tag : Cst) : readInsertOffset tag = .ok tag.insertOffset := by
  rw [readInsertOffset, insertOffset]
  cases tag.field? "name" <;> rfl

end

end JsxProvenance.Cst
