import JsxProvenance.Proofs.Fields.Read
import JsxProvenance.Fragment.Aliases

/-! The scan for aliases, read field by field. It is the one stage that reads specifiers, declarators and
entries of patterns without a look at their form. What stops it is stated in terms of the statements
alone.
-/

namespace JsxProvenance

open Ast

/-- The failed read that a fault stands for. -/
def Fault.toMissing (f : Fault) : Missing :=
  ⟨f.found.typeName, f.missing⟩

namespace Aliases

-----------------------------------------------------------------------------------------
-- The scan
-----------------------------------------------------------------------------------------

/-- Reads one specifier of an import, field by field. -/
def bindSpecifierByField (a : Aliases) (n : Node) : Except Missing Aliases := do
  let kind ← n.readText "kind"
  if kind = "named" then
    let imported ← n.readText? "imported"
    if imported = some fragmentName then
      return a.addFragment (← n.readText "local")
    else return a
  else
    let name ← n.readText "local"
    if name = "" then return a else return a.addNamespace name

/-- Reads one entry of an object pattern, field by field. -/
def bindPropertyByField (a : Aliases) (n : Node) : Except Missing Aliases := do
  let key ← n.readText "key"
  if key = fragmentName then
    match ← n.readText? "value" with
    | some name => if name = "" then return a else return a.addFragment name
    | none => return a
  else return a

/-- Whether an initial value is an identifier among some names, read field by field. -/
def isNameByField (names : List String) (init : Node) : Except Missing Bool := do
  if init.typeName = "Identifier" then
    return (← init.readText "name") ∈ names
  else return false

/-- Whether an initial value is known to be a fragment, read field by field. -/
def isFragmentValueByField (a : Aliases) (init : Node) : Except Missing Bool := do
  let known ← isNameByField a.fragments init
  if init.typeName = "MemberExpression" then
    let object ← init.readNode "object"
    if ← isNameByField a.namespaces object then
      return (← init.readText "property") == fragmentName
    else return known
  else return known

/-- Reads one declarator, field by field. -/
def bindDeclaratorByField (a : Aliases) (n : Node) : Except Missing Aliases := do
  let init ← n.readNode "init"
  if init.typeName = "NoneType" then
    return a
  else
    let binding ← n.readNode "id"
    if binding.typeName = "Identifier" then
      if ← a.isFragmentValueByField init then
        return a.addFragment (← binding.readText "name")
      else return a
    else if binding.typeName = "ObjectPattern" then
      if ← isNameByField a.namespaces init then
        (← binding.readNodes "properties").foldlM bindPropertyByField a
      else return a
    else return a

/-- Reads one top-level statement, field by field. -/
def bindStatementByField (a : Aliases) (n : Node) : Except Missing Aliases := do
  if n.typeName = "ImportDeclaration" then
    if (← n.readText "source") ∈ providerModules then
      (← n.readNodes "specifiers").foldlM bindSpecifierByField a
    else return a
  else if n.typeName = "VariableDeclaration" then
    (← n.readNodes "declarators").foldlM bindDeclaratorByField a
  else return a

/-- The statements that stand in the place of one statement of a file, read field by field. -/
def statementsByField (n : Node) : Except Missing (List Node) := do
  if n.typeName = "OpaqueNode" then
    if (← n.readText "kind") = exportKind then n.readNodes "children" else return [n]
  else return [n]

/-- The aliases of a file, read field by field. -/
def collectByField (p : Program) : Except Missing Aliases := do
  let statements ← p.body.mapM statementsByField
  statements.flatten.foldlM bindStatementByField {}

-----------------------------------------------------------------------------------------
-- The scan fails where the direct definition has a fault
-----------------------------------------------------------------------------------------

/-- Reading a list step by step fails alike if each step does, by induction over the list. -/
theorem foldlM_mapError {f : Aliases → Node → Except Missing Aliases}
    {g : Aliases → Node → Except Fault Aliases}
    (same : ∀ a n, f a n = (g a n).mapError Fault.toMissing) (nodes : List Node) (a : Aliases)
    : nodes.foldlM f a = (nodes.foldlM g a).mapError Fault.toMissing := by
  induction nodes generalizing a with
  | nil => rfl
  | cons n rest ih =>
      rw [List.foldlM_cons, List.foldlM_cons, same]
      cases g a n with
      | error fault => rfl
      | ok next => exact ih next

theorem bindSpecifierByField_eq (a : Aliases) (n : Node)
    : a.bindSpecifierByField n = (a.bindSpecifier n).mapError Fault.toMissing := by
  cases n with
  | leaf p form =>
      cases form with
      | importSpecifier kind imported localName =>
          simp only [bindSpecifier, beq_iff_eq, bne_iff_ne, ite_not]
          change (if kind = "named" then (if imported = some fragmentName then _ else _)
            else (if localName = "" then _ else _)) = _
          by_cases named : kind = "named"
          · by_cases fragment : imported = some fragmentName
            · simp only [named, fragment, if_true]
              rfl
            · simp only [named, fragment, if_true, if_false]
              rfl
          · by_cases empty : localName = ""
            · simp only [named, empty, if_true, if_false]
              rfl
            · simp only [named, empty, if_false]
              rfl
      | _ => rfl
  | wrap p form => cases form <;> rfl
  | group p form =>
      cases form with
      | opaqueNode kind | variableDeclaration kind =>
          simp only [bindSpecifier, Except.mapError, Fault.toMissing, Fault.missing, beq_iff_eq]
          change (if kind = "named" then Except.error _ else Except.error _) = _
          by_cases named : kind = "named"
          · simp only [named, if_true]
            rfl
          · simp only [named, if_false]
            rfl
      | _ => rfl
  | _ => rfl

theorem bindPropertyByField_eq (a : Aliases) (n : Node)
    : a.bindPropertyByField n = (a.bindProperty n).mapError Fault.toMissing := by
  cases n with
  | leaf p form =>
      cases form with
      | patternProperty key value =>
          cases value with
          | none =>
              change (if key = fragmentName then Except.ok a else .ok a) = .ok a
              exact ite_self _
          | some name =>
              simp only [bindProperty, Bool.and_eq_true, beq_iff_eq, bne_iff_ne, Except.mapError]
              change (if key = fragmentName then
                  (if name = "" then Except.ok a else .ok (a.addFragment name))
                else .ok a) = _
              by_cases fragment : key = fragmentName <;> by_cases empty : name = "" <;>
                simp only [fragment, empty, if_true, if_false, true_and, false_and, ne_eq,
                  not_true_eq_false, not_false_eq_true]
      | _ => rfl
  | wrap p form => cases form <;> rfl
  | group p form => cases form <;> rfl
  | _ => rfl

theorem isFragmentValueByField_eq (a : Aliases) (init : Node)
    : a.isFragmentValueByField init = .ok (a.isFragmentValue init) := by
  cases init with
  | leaf p form => cases form <;> rfl
  | wrap p form object =>
      cases form with
      | memberExpression property =>
          cases object with
          | leaf q inner =>
              cases inner with
              | identifier name =>
                  change (if decide (name ∈ a.namespaces) = true then _ else _)
                    = Except.ok (decide (name ∈ a.namespaces) && property == fragmentName)
                  cases decide (name ∈ a.namespaces) <;> rfl
              | _ => rfl
          | wrap q inner => cases inner <;> rfl
          | group q inner => cases inner <;> rfl
          | _ => rfl
      | _ => rfl
  | group p form => cases form <;> rfl
  | _ => rfl

theorem isNameByField_eq_namespace (a : Aliases) (init : Node)
    : isNameByField a.namespaces init = .ok (a.isNamespaceValue init) := by
  cases init with
  | leaf p form => cases form <;> rfl
  | wrap p form => cases form <;> rfl
  | group p form => cases form <;> rfl
  | _ => rfl

theorem eq_absent_of_typeName {n : Node} (typed : n.typeName = "NoneType") : n = .absent := by
  cases n with
  | absent => rfl
  | leaf p form => cases form <;> simp [Node.typeName] at typed
  | wrap p form => cases form <;> simp [Node.typeName] at typed
  | group p form => cases form <;> simp [Node.typeName] at typed
  | _ => simp [Node.typeName] at typed

theorem bindDeclaratorByField_eq (a : Aliases) (n : Node)
    : a.bindDeclaratorByField n = (a.bindDeclarator n).mapError Fault.toMissing := by
  cases n with
  | declarator p binding init =>
      by_cases absent : init.typeName = "NoneType"
      · obtain rfl := eq_absent_of_typeName absent
        cases binding with
        | leaf q form => cases form <;> rfl
        | group q form => cases form <;> rfl
        | _ => rfl
      · change (if init.typeName = "NoneType" then _ else _) = _
        rw [if_neg absent]
        cases binding with
        | leaf q form =>
            cases form with
            | identifier name =>
                change (a.isFragmentValueByField init >>= _) = _
                rw [isFragmentValueByField_eq, bindDeclarator]
                cases a.isFragmentValue init <;> rfl
            | _ => rfl
        | group q form parts =>
            cases form with
            | objectPattern =>
                have read : (Node.group q .objectPattern parts).readNodes "properties" = .ok parts :=
                  congrArg Except.ok (Node.map_snd_mapIdx (.part ·) parts)
                change (isNameByField a.namespaces init >>= _) = _
                rw [isNameByField_eq_namespace, bindDeclarator]
                cases a.isNamespaceValue init with
                | false => rfl
                | true =>
                    change ((Node.group q .objectPattern parts).readNodes "properties" >>= _) = _
                    rw [read]
                    exact foldlM_mapError bindPropertyByField_eq parts a
            | _ => rfl
        | wrap q form => cases form <;> rfl
        | _ => rfl
  | leaf p form => cases form <;> rfl
  | wrap p form => cases form <;> rfl
  | group p form => cases form <;> rfl
  | _ => rfl

theorem bindStatementByField_eq (a : Aliases) (n : Node)
    : a.bindStatementByField n = (a.bindStatement n).mapError Fault.toMissing := by
  cases n with
  | group p form parts =>
      cases form with
      | importDeclaration source =>
          have read : (Node.group p (.importDeclaration source) parts).readNodes "specifiers"
              = .ok parts :=
            congrArg Except.ok (Node.map_snd_mapIdx (.part ·) parts)
          change (if source ∈ providerModules then
              (Node.group p (.importDeclaration source) parts).readNodes "specifiers" >>= _
            else Except.ok a)
              = (if source ∈ providerModules then _ else Except.ok a).mapError _
          by_cases provider : source ∈ providerModules
          · rw [if_pos provider, if_pos provider, read]
            exact foldlM_mapError bindSpecifierByField_eq parts a
          · rw [if_neg provider, if_neg provider]
            rfl
      | variableDeclaration kind =>
          have read : (Node.group p (.variableDeclaration kind) parts).readNodes "declarators"
              = .ok parts :=
            congrArg Except.ok (Node.map_snd_mapIdx (.part ·) parts)
          change ((Node.group p (.variableDeclaration kind) parts).readNodes "declarators" >>= _) = _
          rw [read]
          exact foldlM_mapError bindDeclaratorByField_eq parts a
      | _ => rfl
  | leaf p form => cases form <;> rfl
  | wrap p form => cases form <;> rfl
  | _ => rfl

theorem statementsByField_eq (n : Node) : statementsByField n = .ok (topLevelStatements [n]) := by
  cases n with
  | group p form parts =>
      cases form with
      | opaqueNode kind =>
          have read : (Node.group p (.opaqueNode kind) parts).readNodes "children" = .ok parts :=
            congrArg Except.ok (Node.map_snd_mapIdx (.part ·) parts)
          change (if kind = exportKind then (Node.group p (.opaqueNode kind) parts).readNodes "children"
            else .ok [Node.group p (.opaqueNode kind) parts]) = _
          by_cases exported : kind = exportKind
          · rw [if_pos exported, read, topLevelStatements]
            simp [exported]
          · rw [if_neg exported, topLevelStatements]
            simp [exported]
      | _ => rfl
  | leaf p form => cases form <;> rfl
  | wrap p form => cases form <;> rfl
  | _ => rfl

theorem collectByField_eq (p : Program)
    : collectByField p = (collect p).mapError Fault.toMissing := by
  have read : p.body.mapM statementsByField = .ok (p.body.map fun n => topLevelStatements [n]) := by
    rw [funext statementsByField_eq]
    exact List.mapM_pure
  rw [collectByField, read]
  change (p.body.map fun n => topLevelStatements [n]).flatten.foldlM _ _ = _
  rw [foldlM_mapError bindStatementByField_eq, collect, ← List.flatMap_def]
  simp only [topLevelStatements, List.flatMap_singleton]

end Aliases
end JsxProvenance
