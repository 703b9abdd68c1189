import JsxProvenance.Proofs.Annotation.Gains
import JsxProvenance.Proofs.Fields.Classify

/-! The injection of attributes into an element that is changed in place. The attributes are written
one after the other, each after a look at what the element carries by then. No read fails, and the
element is left with the additions of the direct definition.
-/

namespace JsxProvenance

open Ast

-----------------------------------------------------------------------------------------
-- Changes in place
-----------------------------------------------------------------------------------------

/-- A computation on something that it changes. Where it fails, what it changed before stays so. -/
abbrev InPlace (σ : Type) : Type → Type :=
  ExceptT Missing (StateM σ)

namespace InPlace

variable {σ α β : Type} {s t u : σ}

/-- What the computation ends with, and what it leaves. -/
def outcome (m : InPlace σ α) (s : σ) : Except Missing α × σ :=
  m.run.run s

/-- The computation returns a result and leaves a state. -/
def Does (m : InPlace σ α) (s : σ) (a : α) (t : σ) : Prop :=
  m.outcome s = (.ok a, t)

theorem Does.pure (a : α) : Does (Pure.pure a : InPlace σ α) s a s :=
  rfl

theorem Does.get : Does (MonadState.get : InPlace σ σ) s s s :=
  rfl

theorem Does.set : Does (MonadState.set t : InPlace σ PUnit) s ⟨⟩ t :=
  rfl

theorem Does.read {e : Except Missing α} {a : α} (given : e = .ok a)
    : Does (liftM e : InPlace σ α) s a s := by
  rw [given]
  rfl

theorem Does.bind {m : InPlace σ α} {f : α → InPlace σ β} {a : α} {b : β}
    (first : m.Does s a t) (next : (f a).Does t b u)
    : Does (m >>= f) s b u := by
  change ExceptT.bindCont f (m.outcome s).1 (m.outcome s).2 = _
  rw [first]
  exact next

end InPlace

-----------------------------------------------------------------------------------------
-- Attributes
-----------------------------------------------------------------------------------------

namespace Ast.Node

variable {n : Node} {name : String}

/-- Whether an element carries an attribute, read field by field. -/
def hasAttributeByField (n : Node) (name : String) : Except Missing Bool := do
  if name = "" then
    return false
  else
    let attributes ← n.readNodes "attributes"
    attributes.anyM fun attr =>
      if attr.typeName = "JSXAttribute" then do
        return (← attr.readText "name") == name
      else return false

/-- Writes one attribute behind the others. It stands where the element stands. -/
def writeAttribute (name value : String) : InPlace Node (List (String × String)) := do
  let n ← get
  let _ ← n.readNumber "line"
  let _ ← n.readNumber "column"
  let _ ← n.readNodes "attributes"
  set (n.appendAttributes [(name, value)])
  return [(name, value)]

/-- Writes one attribute, unless it is there or there is no value for it. -/
def writeMissing (name value : String) : InPlace Node (List (String × String)) := do
  if value = "" then
    return []
  else
    let n ← get
    let present ← n.hasAttributeByField name
    if present then return [] else writeAttribute name value

/-- Leaves writing out. -/
def writeUnless (skipped : Bool) (write : InPlace Node (List (String × String)))
    : InPlace Node (List (String × String)) :=
  if skipped then return [] else write

/-- After some attributes have been written to a node, a computation writes some more. -/
def Writes (n : Node) (write : InPlace Node (List (String × String)))
    (before added : List (String × String))
    : Prop :=
  write.Does (n.appendAttributes before) added (n.appendAttributes (before ++ added))

theorem isAttributeByField_eq (attr : Node) (name : String)
    : (if attr.typeName = "JSXAttribute" then do
          return (← attr.readText "name") == name
        else return false : Except Missing Bool)
      = pure (attr.isAttribute name) := by
  cases attr with
  | leaf p form => cases form <;> rfl
  | wrap p form => cases form <;> rfl
  | group p form => cases form <;> rfl
  | _ => rfl

theorem readNodes_attributes (element : n.isElement = true)
    : n.readNodes "attributes" = .ok n.attributes := by
  cases n with
  | element p tag attrs children sc off =>
      exact congrArg Except.ok (map_snd_mapIdx (.attribute ·) attrs)
  | _ => cases element

theorem readNode_name (element : n.isElement = true)
    : ∃ tag, n.readNode "name" = .ok tag ∧ tag.tagName = n.elementName := by
  cases n with
  | element p tag => exact ⟨tag, rfl, rfl⟩
  | _ => cases element

theorem hasAttributeByField_eq (element : n.isElement = true) (name : String)
    : n.hasAttributeByField name = .ok (n.hasAttribute name) := by
  rw [hasAttributeByField, readNodes_attributes element, hasAttribute]
  by_cases proper : name = ""
  · rw [if_pos proper, proper]
    rfl
  · rw [if_neg proper, bne_iff_ne.mpr proper, Bool.true_and]
    change n.attributes.anyM _ = _
    simp only [isAttributeByField_eq, List.anyM_pure]
    rfl

@[simp]
theorem appendAttributes_nil (n : Node) : n.appendAttributes [] = n := by
  cases n <;> simp [appendAttributes, insertedAttributes]

@[simp]
theorem appendAttributes_append (n : Node) (first second : List (String × String))
    : (n.appendAttributes first).appendAttributes second = n.appendAttributes (first ++ second) := by
  cases n <;> simp [appendAttributes, insertedAttributes]

@[simp]
theorem isElement_appendAttributes (n : Node) (additions : List (String × String))
    : (n.appendAttributes additions).isElement = n.isElement := by
  cases n <;> rfl

/-- With more attributes an element carries no others. -/
theorem hasAttribute_appendAttributes {additions : List (String × String)}
    (other : name ∉ additions.map (·.1))
    : (n.appendAttributes additions).hasAttribute name = n.hasAttribute name := by
  cases n with
  | element p tag attrs children sc off =>
      have apart : (insertedAttributes p additions).any (isAttribute name) = false := by
        rw [List.any_eq_false]
        rintro _ member
        obtain ⟨addition, listed, rfl⟩ := List.mem_map.mp member
        rw [isAttribute, beq_iff_eq]
        rintro rfl
        exact other (List.mem_map_of_mem listed)
      simp only [hasAttribute, appendAttributes, attributes, List.any_append, apart, Bool.or_false]
  | _ => rfl

theorem writeAttribute_writes (element : n.isElement = true) (before : List (String × String))
    (name value : String)
    : n.Writes (writeAttribute name value) before [(name, value)] := by
  cases n with
  | element p tag attrs children sc off =>
      refine .bind .get (.bind (.read rfl) (.bind (.read rfl) ?_))
      refine .bind (.read (readNodes_attributes rfl)) (.bind .set ?_)
      rw [appendAttributes_append]
      exact .pure _
  | _ => cases element

/-- An attribute is looked for after others have been written as if they had not been. -/
theorem writeMissing_writes (element : n.isElement = true) {before : List (String × String)}
    (other : name ∉ before.map (·.1)) (value : String)
    : n.Writes (writeMissing name value) before (n.missingAttribute name value) := by
  have there : (n.appendAttributes before).isElement = true :=
    (isElement_appendAttributes n before).trans element
  have present : (n.appendAttributes before).hasAttributeByField name = .ok (n.hasAttribute name) := by
    rw [hasAttributeByField_eq there, hasAttribute_appendAttributes other]
  unfold writeMissing missingAttribute
  by_cases empty : value = ""
  · rw [if_pos empty, empty, bne_self_eq_false, Bool.false_and, if_neg Bool.false_ne_true, Writes,
      List.append_nil]
    exact .pure []
  · rw [if_neg empty, bne_iff_ne.mpr empty, Bool.true_and]
    refine .bind .get (.bind (.read present) ?_)
    cases n.hasAttribute name with
    | true =>
        rw [if_pos rfl, if_neg (Bool.not_eq_true _ ▸ rfl), List.append_nil]
        exact .pure []
    | false => exact writeAttribute_writes element before name value

theorem Writes.unless {write : InPlace Node (List (String × String))}
    {before added : List (String × String)} (writes : n.Writes write before added) (skipped : Bool)
    : n.Writes (writeUnless skipped write) before (if skipped then [] else added) := by
  cases skipped with
  | true =>
      rw [Writes, if_pos rfl, List.append_nil]
      exact .pure []
  | false => exact writes

end Ast.Node

-----------------------------------------------------------------------------------------
-- The full policy
-----------------------------------------------------------------------------------------

/-- What the full policy does at an element that is no fragment. -/
def Context.elementInjection (c : Context) (n : Node) : Injection :=
  let names := c.settings.attributeNames
  let name := n.elementName
  if isIgnored name c.component c.settings.ignoredComponents then
    { elementName := name, ignored := true, target := true }
  else
    let present := n.hasAttribute names.element
    let suppressed := !present && name ∈ c.settings.ignoredElements
    let element := if present || suppressed then [] else [(names.element, name)]
    let component := n.missingAttribute names.component c.component
    let file :=
      if c.component == "" && suppressed then []
      else n.missingAttribute names.sourceFile (c.settings.sourceFileName.getD "")
    {
      elementName := name
      additions := element ++ component ++ file
      suppressed
      target := true
    }

/-- What the full policy does at an element, in place. -/
def injectElement (c : Context) : InPlace Node Injection := do
  let n ← get
  let tag ← n.readNode "name"
  let name ← tag.tagNameByField
  if isIgnored name c.component c.settings.ignoredComponents then
    return { elementName := name, ignored := true, target := true }
  else
    let names := c.settings.attributeNames
    let present ← n.hasAttributeByField names.element
    let suppressed := !present && name ∈ c.settings.ignoredElements
    let element ← Node.writeUnless (present || suppressed) (Node.writeAttribute names.element name)
    let component ← Node.writeMissing names.component c.component
    let file ←
      Node.writeUnless (c.component == "" && suppressed)
        (Node.writeMissing names.sourceFile (c.settings.sourceFileName.getD ""))
    return {
      elementName := name
      additions := element ++ component ++ file
      suppressed
      target := true
    }

theorem fullInjection_eq (c : Context) (n : Node)
    : fullInjection c n
      = if classify (some c.aliases) n = .element then c.elementInjection n else {} := by
  have file (suppressed : Bool) (file : List (String × String))
      : (if c.component != "" || !suppressed then file else [])
        = if c.component == "" && suppressed then [] else file := by
    cases suppressed <;> by_cases h : c.component = "" <;> simp [h]
  unfold fullInjection Context.elementInjection
  by_cases h : classify (some c.aliases) n = .element
  · simp only [h, bne_self_eq_false, Bool.false_eq_true, if_false, if_true, file]
  · simp [h]

/-- Each of the three attributes is written behind those before it, and their names differ, so none of
the looks at the element sees what this injection wrote.
-/
theorem injectElement_does (c : Context) {n : Node} (element : n.isElement = true)
    : (injectElement c).Does n (c.elementInjection n)
        (n.appendAttributes (c.elementInjection n).additions) := by
  obtain ⟨tag, read, named⟩ := Node.readNode_name element
  obtain ⟨ownComponent, ownFile, componentFile, _⟩ := c.settings.attributeNames_distinct
  unfold injectElement Context.elementInjection
  refine .bind .get (.bind (.read read) (.bind (.read (named ▸ tag.tagNameByField_eq)) ?_))
  by_cases ignored : isIgnored n.elementName c.component c.settings.ignoredComponents = true
  · simp only [ignored, if_true, Node.appendAttributes_nil]
    exact .pure _
  · simp only [if_neg ignored]
    refine .bind (.read (n.hasAttributeByField_eq element _)) ?_
    have own (skipped : Bool) :=
      (Node.writeAttribute_writes element [] c.settings.attributeNames.element
        n.elementName).unless skipped
    simp only [Node.Writes, Node.appendAttributes_nil, List.nil_append] at own
    have only {skipped : Bool} {name : String}
        (member : name ∈ (if skipped then [] else
          [(c.settings.attributeNames.element, n.elementName)]).map (·.1))
        : name = c.settings.attributeNames.element := by
      cases skipped with
      | true => cases member
      | false => exact List.mem_singleton.mp member
    refine .bind (own _) (.bind (Node.writeMissing_writes element ?_ c.component) ?_)
    · exact fun member => ownComponent (only member).symm
    · refine .bind ((Node.writeMissing_writes element ?_ _).unless _) (.pure _)
      rw [List.map_append, List.mem_append]
      rintro (member | member)
      · exact ownFile (only member).symm
      · exact componentFile (Node.mem_missingAttribute.mp member).1.symm

-----------------------------------------------------------------------------------------
-- The legacy policy
-----------------------------------------------------------------------------------------

/-- The first letter of a text. The empty text has none to read. -/
def firstLetter (text : String) : Except Missing Char :=
  match text.toList.head? with
  | some letter => .ok letter
  | none => .error ⟨"str", "0"⟩

/-- Whether an element is a host element, where the first letter is read only if there is one. -/
def isHostByLetter (name : String) : Except Missing Bool := do
  if name = unknownName then
    return false
  else if name = "" then
    return name ∈ nativeElements
  else
    let letter ← firstLetter name
    return !changesInLowerCase letter || name ∈ nativeElements

/-- What the legacy policy does at an element that is no fragment. -/
def Context.hostInjection (c : Context) (n : Node) : Injection :=
  let name := n.elementName
  if !isHostElement name then
    { elementName := name }
  else if isIgnored name c.component c.settings.ignoredComponents then
    { elementName := name, ignored := true, target := true }
  else
    {
      elementName := name
      additions := n.missingAttribute c.settings.attributeNames.component c.component
      target := true
    }

/-- What the legacy policy does at an element, in place. -/
def injectHost (c : Context) : InPlace Node Injection := do
  let n ← get
  let tag ← n.readNode "name"
  let name ← tag.tagNameByField
  let host ← isHostByLetter name
  if !host then
    return { elementName := name }
  else if isIgnored name c.component c.settings.ignoredComponents then
    return { elementName := name, ignored := true, target := true }
  else
    let component ← Node.writeMissing c.settings.attributeNames.component c.component
    return { elementName := name, additions := component, target := true }

theorem isHostByLetter_eq (name : String) : isHostByLetter name = .ok (isHostElement name) := by
  unfold isHostByLetter isHostElement
  by_cases unknown : name = unknownName
  · rw [if_pos unknown, unknown, bne_self_eq_false, Bool.false_and]
    rfl
  · rw [if_neg unknown, bne_iff_ne.mpr unknown, Bool.true_and]
    by_cases empty : name = ""
    · rw [if_pos empty, empty]
      rfl
    · rw [if_neg empty]
      cases letters : name.toList with
      | nil => exact absurd (String.toList_eq_nil_iff.mp letters) empty
      | cons letter rest =>
          rw [firstLetter, letters]
          rfl

theorem legacyInjection_eq (c : Context) (n : Node)
    : legacyInjection c n
      = if classify (some c.aliases) n = .element then c.hostInjection n else {} := by
  unfold legacyInjection Context.hostInjection
  by_cases h : classify (some c.aliases) n = .element
  · simp only [h, bne_self_eq_false, Bool.false_eq_true, if_false, if_true]
  · simp [h]

theorem injectHost_does (c : Context) {n : Node} (element : n.isElement = true)
    : (injectHost c).Does n (c.hostInjection n)
        (n.appendAttributes (c.hostInjection n).additions) := by
  obtain ⟨tag, read, named⟩ := Node.readNode_name element
  unfold injectHost Context.hostInjection
  refine .bind .get (.bind (.read read) (.bind (.read (named ▸ tag.tagNameByField_eq)) ?_))
  refine .bind (.read (isHostByLetter_eq _)) ?_
  by_cases host : isHostElement n.elementName = true
  · simp only [host, Bool.not_true, Bool.false_eq_true, if_false]
    by_cases ignored : isIgnored n.elementName c.component c.settings.ignoredComponents = true
    · simp only [ignored, if_true, Node.appendAttributes_nil]
      exact .pure _
    · simp only [if_neg ignored]
      have component
          : n.Writes (Node.writeMissing c.settings.attributeNames.component c.component) []
              (n.missingAttribute c.settings.attributeNames.component c.component) :=
        Node.writeMissing_writes element List.not_mem_nil c.component
      rw [Node.Writes, Node.appendAttributes_nil, List.nil_append] at component
      exact .bind component (.pure _)
  · simp only [Bool.not_eq_true _ ▸ host, Bool.not_false, if_true, Node.appendAttributes_nil]
    exact .pure _

-----------------------------------------------------------------------------------------
-- Injection at any node
-----------------------------------------------------------------------------------------

/-- The kind that is given for a node, or else that of its classification. -/
def givenKind (c : Context) (kind? : Option NodeKind) (n : Node) : Except Missing NodeKind :=
  match kind? with
  | some kind => .ok kind
  | none => classifyByField (some c.aliases) n

/-- An injection at a node that is an element by its kind and by its form, and nothing elsewhere. -/
def injectWhere (atElement : InPlace Node Injection) (c : Context) (kind? : Option NodeKind)
    : InPlace Node Injection := do
  let n ← get
  let kind ← givenKind c kind? n
  if kind = .element ∧ n.typeName = "JSXElement" then atElement else return {}

/-- The injection of the full policy in place. -/
def injectFull (c : Context) : Option NodeKind → InPlace Node Injection :=
  injectWhere (injectElement c) c

/-- The injection of the legacy policy in place. -/
def injectLegacy (c : Context) : Option NodeKind → InPlace Node Injection :=
  injectWhere (injectHost c) c

theorem givenKind_eq (c : Context) (kind? : Option NodeKind) (n : Node)
    : givenKind c kind? n = .ok (kind?.getD (classify (some c.aliases) n)) := by
  cases kind? with
  | some kind => rfl
  | none => exact classifyByField_eq _ n

theorem Ast.Node.typeName_eq_element_iff {n : Node}
    : n.typeName = "JSXElement" ↔ n.isElement = true := by
  cases n with
  | leaf p form => cases form <;> simp [typeName, isElement]
  | wrap p form => cases form <;> simp [typeName, isElement]
  | group p form => cases form <;> simp [typeName, isElement]
  | _ => simp [typeName, isElement]

variable {c : Context} {kind? : Option NodeKind} {n : Node}

/-- An injection that never fails at an element never fails at a node. -/
theorem injectWhere_does {atElement : InPlace Node Injection} {injection : Node → Injection}
    (does
      : ∀ n : Node,
          n.isElement = true
          → atElement.Does n (injection n) (n.appendAttributes (injection n).additions))
    (c : Context) (kind? : Option NodeKind) (n : Node)
    : ∃ i : Injection,
        (injectWhere atElement c kind?).Does n i (i.apply n)
        ∧ (kind?.getD (classify (some c.aliases) n) = .element → n.isElement = true → i = injection n)
        ∧ (kind?.getD (classify (some c.aliases) n) ≠ .element → i = {}) := by
  by_cases reached : kind?.getD (classify (some c.aliases) n) = .element ∧ n.typeName = "JSXElement"
  · refine ⟨injection n, ?_, fun _ _ => rfl, fun other => absurd reached.1 other⟩
    refine .bind .get (.bind (.read (givenKind_eq c kind? n)) ?_)
    rw [if_pos reached]
    exact does n (Node.typeName_eq_element_iff.mp reached.2)
  · refine ⟨{}, ?_, ?_, fun _ => rfl⟩
    · refine .bind .get (.bind (.read (givenKind_eq c kind? n)) ?_)
      rw [if_neg reached, Injection.apply, Node.appendAttributes_nil]
      exact .pure _
    · intro kind element
      exact absurd ⟨kind, Node.typeName_eq_element_iff.mpr element⟩ reached

/-- An injection at a node of the kind that it is classified as. -/
theorem injectWhere_does_of_classify {atElement : InPlace Node Injection}
    {injection : Node → Injection}
    (does
      : ∀ n : Node,
          n.isElement = true
          → atElement.Does n (injection n) (n.appendAttributes (injection n).additions))
    (given : kind?.getD (classify (some c.aliases) n) = classify (some c.aliases) n)
    : (injectWhere atElement c kind?).Does n
        (if classify (some c.aliases) n = .element then injection n else {})
        ((if classify (some c.aliases) n = .element then injection n else {}).apply n) := by
  obtain ⟨i, done, atElements, elsewhere⟩ := injectWhere_does does c kind? n
  rw [given] at atElements elsewhere
  by_cases element : classify (some c.aliases) n = .element
  · rwa [if_pos element, ← atElements element (isElement_of_classify element)]
  · rwa [if_neg element, ← elsewhere element]

/-- The injection of the full policy never fails, and does what the direct definition says. -/
theorem injectFull_does (given : kind?.getD (classify (some c.aliases) n) = classify (some c.aliases) n)
    : (injectFull c kind?).Does n (fullInjection c n) ((fullInjection c n).apply n) := by
  rw [fullInjection_eq]
  exact injectWhere_does_of_classify (fun _ => injectElement_does c) given

/-- The injection of the legacy policy never fails, and does what the direct definition says. -/
theorem injectLegacy_does
    (given : kind?.getD (classify (some c.aliases) n) = classify (some c.aliases) n)
    : (injectLegacy c kind?).Does n (legacyInjection c n) ((legacyInjection c n).apply n) := by
  rw [legacyInjection_eq]
  exact injectWhere_does_of_classify (fun _ => injectHost_does c) given

end JsxProvenance
