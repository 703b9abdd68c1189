import JsxProvenance.Fragment.Classify
import JsxProvenance.Proofs.Fields.Read

/-! Tag names and the classification of nodes, read field by field. Each read comes after a look at
the form, so none of them fails and the results are those of the direct definitions.
-/

namespace JsxProvenance

open Ast

namespace Ast.Node

/-- The text of what stands before a dot, read field by field. -/
def objectNameByField (n : Node) : Except Missing String :=
  if n.typeName = "JSXIdentifier" then n.readText "name"
  else if n.typeName = "JSXMemberExpression" then
    match _ : n.readNode "object" with
    | .error missing => .error missing
    | .ok object => do
        let front ← object.objectNameByField
        let property ← n.readText "property"
        return front ++ "." ++ property
  else return unknownName
termination_by n.size
decreasing_by exact size_lt_of_readNode ‹_›

/-- The text of a tag name, read field by field. -/
def tagNameByField (n : Node) : Except Missing String := do
  if let .plain text := n then
    return text
  else if n.typeName = "JSXIdentifier" then n.readText "name"
  else if n.typeName = "JSXNamespacedName" then n.readText "name"
  else if n.typeName = "JSXMemberExpression" then
    let object ← n.readNode "object"
    let front ← object.objectNameByField
    let property ← n.readText "property"
    return front ++ "." ++ property
  else return unknownName

theorem objectNameByField_eq (n : Node) : n.objectNameByField = .ok n.objectName := by
  induction n using Node.partsInduction with
  | step n ih =>
      rw [objectNameByField]
      cases n with
      | leaf p form => cases form <;> rfl
      | wrap p form object =>
          cases form with
          | jsxMemberExpression property =>
              have inner : object.objectNameByField = .ok object.objectName :=
                ih (.part 0) object (List.mem_singleton_self _)
              change object.objectNameByField.bind (fun front => .ok (front ++ "." ++ property)) = _
              rw [inner, objectName]
              rfl
          | _ => rfl
      | group p form parts => cases form <;> rfl
      | _ => rfl

theorem tagNameByField_eq (n : Node) : n.tagNameByField = .ok n.tagName := by
  cases n with
  | leaf p form => cases form <;> rfl
  | wrap p form object =>
      cases form with
      | jsxMemberExpression property =>
          change object.objectNameByField.bind (fun front => .ok (front ++ "." ++ property)) = _
          rw [objectNameByField_eq, tagName]
          rfl
      | _ => rfl
  | group p form parts => cases form <;> rfl
  | _ => rfl

end Ast.Node

/-- Whether a tag is a fragment by the aliases of the file, read field by field. -/
def Aliases.isFragmentTagByField (a : Aliases) (tag : Node) : Except Missing Bool := do
  let name ← tag.tagNameByField
  if name ∈ a.fragments then
    return true
  if tag.typeName = "JSXMemberExpression" then
    let object ← tag.readNode "object"
    if object.typeName = "JSXIdentifier" then
      if (← tag.readText "property") != fragmentName then
        return false
      let space ← object.readText "name"
      return space ∈ a.namespaces || space ∈ a.fragments
  return false

/-- Whether a node is a fragment, read field by field. -/
def isFragmentByField (aliases? : Option Aliases) (n : Node) : Except Missing Bool := do
  if n.typeName = "JSXFragment" then
    return true
  if n.typeName = "JSXElement" then
    let tag ← n.readNode "name"
    let name ← tag.tagNameByField
    if name ∈ literalFragmentNames then
      return true
    match aliases? with
    | some aliases => aliases.isFragmentTagByField tag
    | none => return false
  else return false

/-- What a node is for annotation, read field by field. -/
def classifyByField (aliases? : Option Aliases) (n : Node) : Except Missing NodeKind := do
  if ← isFragmentByField aliases? n then
    return .fragment
  else if n.typeName = "JSXElement" then
    return .element
  else if n.typeName = "JSXText" then
    return .text
  else return .other

theorem Aliases.isFragmentTagByField_eq (a : Aliases) (tag : Node)
    : a.isFragmentTagByField tag = .ok (a.isFragmentTag tag) := by
  unfold isFragmentTag
  rw [isFragmentTagByField, Node.tagNameByField_eq]
  change (if tag.tagName ∈ a.fragments then _ else _) = _
  by_cases listed : tag.tagName ∈ a.fragments
  · rw [if_pos listed, decide_eq_true listed, Bool.true_or]
    rfl
  · rw [if_neg listed, decide_eq_false listed, Bool.false_or]
    cases tag with
    | wrap p form object =>
        cases form with
        | jsxMemberExpression property =>
            cases object with
            | leaf q inner =>
                cases inner with
                | jsxIdentifier space =>
                    change (if property != fragmentName then Except.ok false
                      else .ok (decide (space ∈ a.namespaces) || decide (space ∈ a.fragments))) = _
                    cases same : property == fragmentName <;> simp [bne, same]
                | _ => rfl
            | wrap q form => cases form <;> rfl
            | group q form => cases form <;> rfl
            | _ => rfl
        | _ => rfl
    | leaf p form => cases form <;> rfl
    | group p form => cases form <;> rfl
    | _ => rfl

theorem isFragmentByField_eq (aliases? : Option Aliases) (n : Node)
    : isFragmentByField aliases? n = .ok (isFragment aliases? n) := by
  cases n with
  | element p tag attrs children sc off =>
      change (tag.tagNameByField.bind fun name => _) = _
      rw [Node.tagNameByField_eq, isFragment]
      change (if tag.tagName ∈ literalFragmentNames then _ else _) = _
      by_cases literal : tag.tagName ∈ literalFragmentNames
      · rw [if_pos literal, decide_eq_true literal, Bool.true_or]
        rfl
      · rw [if_neg literal, decide_eq_false literal, Bool.false_or]
        cases aliases? with
        | none => rfl
        | some aliases => exact aliases.isFragmentTagByField_eq tag
  | leaf p form => cases form <;> rfl
  | wrap p form => cases form <;> rfl
  | group p form => cases form <;> rfl
  | _ => rfl

theorem classifyByField_eq (aliases? : Option Aliases) (n : Node)
    : classifyByField aliases? n = .ok (classify aliases? n) := by
  unfold classify
  rw [classifyByField, isFragmentByField_eq]
  change (if isFragment aliases? n = true then _ else _) = _
  cases isFragment aliases? n with
  | true => rfl
  | false =>
      cases n with
      | leaf p form => cases form <;> rfl
      | wrap p form => cases form <;> rfl
      | group p form => cases form <;> rfl
      | _ => rfl

end JsxProvenance
