import Mathlib.Data.List.Basic
import JsxProvenance.Fragment.Aliases

/-! What stops the scan for aliases, in terms of the statements alone: a specifier, a declarator or an
entry of a pattern of another form, in a place where the scan reads it. An entry is read only if the
pattern takes a namespace apart that the statements before make known.
-/

namespace JsxProvenance

open Ast

-----------------------------------------------------------------------------------------
-- Statements that cannot be read
-----------------------------------------------------------------------------------------

/-- The namespace that a specifier of a provider's import makes known. -/
def namespaceName? : Node → Option String
  | .leaf _ (.importSpecifier kind _ localName) =>
      if kind ≠ "named" ∧ localName ≠ "" then some localName else none
  | _ => none

/-- The namespaces that a statement makes known. -/
def importedNamespaces : Node → List String
  | .group _ (.importDeclaration source) specifiers =>
      if source ∈ providerModules then specifiers.filterMap namespaceName? else []
  | _ => []

/-- The namespaces that are known after some statements. -/
def knownNamespaces (statements : List Node) : List String :=
  defaultNamespace :: statements.flatMap importedNamespaces

/-- A statement that holds syntax of another form where only one form can be read. -/
inductive Refused (known : List String) : Node → Prop
  | specifier {position source specifiers n} (provider : source ∈ providerModules)
    (among : n ∈ specifiers) (other : n.typeName ≠ "ImportSpecifier")
    : Refused known (.group position (.importDeclaration source) specifiers)
  | declarator {position kind declarators n}
    (among : n ∈ declarators) (other : n.typeName ≠ "VariableDeclarator")
    : Refused known (.group position (.variableDeclaration kind) declarators)
  | entry {position kind declarators place pattern properties init name n}
    (among
      : .declarator place (.group pattern .objectPattern properties) (.leaf init (.identifier name))
        ∈ declarators)
    (space : name ∈ known) (within : n ∈ properties) (other : n.typeName ≠ "PatternProperty")
    : Refused known (.group position (.variableDeclaration kind) declarators)

/-- Some top-level statement cannot be read by the time the scan comes to it. -/
def Ast.Program.Refuses (p : Program) : Prop :=
  ∃ before statement after,
    topLevelStatements p.body = before ++ statement :: after
    ∧ Refused (knownNamespaces before) statement

-----------------------------------------------------------------------------------------
-- Scans that fail
-----------------------------------------------------------------------------------------

/-- The computation ends with an error. -/
def Fails {ε α : Type} (e : Except ε α) : Prop :=
  ∃ error, e = .error error

namespace Fails

variable {ε α β : Type}

theorem ok_iff {a : α} : Fails (Except.ok a : Except ε α) ↔ False :=
  ⟨nofun, False.elim⟩

/-- What each step keeps for the parts read so far holds of all of them in the end. -/
theorem foldlM_kept {f : α → β → Except ε α} (kept : List β → α → Prop)
    (keeps : ∀ read a b next, kept read a → f a b = .ok next → kept (read ++ [b]) next)
    (read list : List β) {a final : α} (start : kept read a)
    (done : list.foldlM f a = .ok final)
    : kept (read ++ list) final := by
  induction list generalizing read a with
  | nil =>
      obtain rfl := Except.ok.inj done
      rwa [List.append_nil]
  | cons first rest ih =>
      rw [List.foldlM_cons] at done
      cases step : f a first with
      | error error =>
          rw [step] at done
          cases done
      | ok next =>
          rw [step] at done
          have later := ih (read ++ [first]) (keeps read a first next start step) done
          rwa [List.append_assoc] at later

/-- A list read step by step fails where a part fails after those before it were read. What was read
decides which parts fail, since a state is kept for it. By induction over the list.
-/
theorem foldlM_iff {f : α → β → Except ε α} (kept : List β → α → Prop)
    (failing : List β → β → Prop)
    (keeps : ∀ read a b next, kept read a → f a b = .ok next → kept (read ++ [b]) next)
    (fails : ∀ read a b, kept read a → (Fails (f a b) ↔ failing read b)) (read list : List β)
    {a : α} (start : kept read a)
    : Fails (list.foldlM f a)
      ↔ ∃ before b after, list = before ++ b :: after ∧ failing (read ++ before) b := by
  induction list generalizing read a with
  | nil => simp [Fails, pure, Except.pure]
  | cons first rest ih =>
      rw [List.foldlM_cons]
      cases step : f a first with
      | error error =>
          have failed : failing read first := (fails read a first start).mp ⟨error, step⟩
          refine ⟨fun _ => ⟨[], first, rest, rfl, ?_⟩, fun _ => ⟨error, rfl⟩⟩
          rwa [List.append_nil]
      | ok next =>
          change Fails (rest.foldlM f next) ↔ _
          rw [ih (read ++ [first]) (keeps read a first next start step)]
          constructor
          · rintro ⟨before, b, after, rfl, failed⟩
            refine ⟨first :: before, b, after, rfl, ?_⟩
            rwa [List.append_assoc] at failed
          · rintro ⟨before, b, after, same, failed⟩
            cases before with
            | nil =>
                obtain ⟨rfl, rfl⟩ := List.cons.inj same
                rw [List.append_nil] at failed
                obtain ⟨error, contrary⟩ := (fails read a first start).mpr failed
                cases step.symm.trans contrary
            | cons head later =>
                obtain ⟨rfl, rfl⟩ := List.cons.inj same
                refine ⟨later, b, after, rfl, ?_⟩
                rwa [List.append_assoc]

/-- Where the same parts fail in every state that is kept, a list fails if it has one of them. -/
theorem foldlM_iff_mem {f : α → β → Except ε α} (kept : α → Prop) (failing : β → Prop)
    (keeps : ∀ a b next, kept a → f a b = .ok next → kept next)
    (fails : ∀ a b, kept a → (Fails (f a b) ↔ failing b)) (list : List β) {a : α} (start : kept a)
    : Fails (list.foldlM f a) ↔ ∃ b ∈ list, failing b := by
  rw [foldlM_iff (fun _ => kept) (fun _ => failing) (fun _ => keeps) (fun _ => fails) [] list start]
  constructor
  · rintro ⟨before, b, after, rfl, failed⟩
    exact ⟨b, List.mem_append_right _ List.mem_cons_self, failed⟩
  · rintro ⟨b, member, failed⟩
    obtain ⟨before, after, same⟩ := List.append_of_mem member
    exact ⟨before, b, after, same, failed⟩

end Fails

namespace Aliases

-----------------------------------------------------------------------------------------
-- Parts of statements
-----------------------------------------------------------------------------------------

theorem bindSpecifier_fails_iff (a : Aliases) (n : Node)
    : Fails (a.bindSpecifier n) ↔ n.typeName ≠ "ImportSpecifier" := by
  cases n with
  | leaf p form =>
      cases form with
      | importSpecifier kind imported localName =>
          cases named : kind == "named" <;> simp [bindSpecifier, named, Node.typeName, Fails]
      | _ => simp [bindSpecifier, Node.typeName, Fails]
  | wrap p form => cases form <;> simp [bindSpecifier, Node.typeName, Fails]
  | group p form => cases form <;> simp [bindSpecifier, Node.typeName, Fails]
  | _ => simp [bindSpecifier, Node.typeName, Fails]

theorem bindProperty_fails_iff (a : Aliases) (n : Node)
    : Fails (a.bindProperty n) ↔ n.typeName ≠ "PatternProperty" := by
  cases n with
  | leaf p form =>
      cases form with
      | patternProperty key value => cases value <;> simp [bindProperty, Node.typeName, Fails]
      | _ => simp [bindProperty, Node.typeName, Fails]
  | wrap p form => cases form <;> simp [bindProperty, Node.typeName, Fails]
  | group p form => cases form <;> simp [bindProperty, Node.typeName, Fails]
  | _ => simp [bindProperty, Node.typeName, Fails]

/-- An entry that cannot be read stands in a pattern that takes a known namespace apart. -/
def Unpacks (known : List String) (n : Node) : Prop :=
  ∃ place pattern properties init name entry,
    n = .declarator place (.group pattern .objectPattern properties) (.leaf init (.identifier name))
    ∧ name ∈ known
    ∧ entry ∈ properties
    ∧ entry.typeName ≠ "PatternProperty"

theorem isNamespaceValue_iff {a : Aliases} {init : Node}
    : a.isNamespaceValue init = true
      ↔ ∃ place name, init = .leaf place (.identifier name) ∧ name ∈ a.namespaces := by
  cases init with
  | leaf p form => cases form <;> simp [isNamespaceValue]
  | _ => simp [isNamespaceValue]

theorem bindDeclarator_fails_iff (a : Aliases) (n : Node)
    : Fails (a.bindDeclarator n) ↔ n.typeName ≠ "VariableDeclarator" ∨ Unpacks a.namespaces n := by
  cases n with
  | declarator p binding init =>
      cases binding with
      | group q form properties =>
          cases form with
          | objectPattern =>
              simp only [bindDeclarator, Node.typeName, ne_eq, not_true_eq_false, false_or]
              by_cases unpacked : a.isNamespaceValue init = true
              · obtain ⟨place, name, rfl, space⟩ := isNamespaceValue_iff.mp unpacked
                rw [if_pos unpacked, Fails.foldlM_iff_mem (fun _ => True) _
                  (fun _ _ _ _ _ => trivial) (fun a n _ => bindProperty_fails_iff a n) _ trivial]
                constructor
                · rintro ⟨entry, within, other⟩
                  exact ⟨p, q, properties, place, name, entry, rfl, space, within, other⟩
                · rintro ⟨_, _, _, _, _, entry, same, _, within, other⟩
                  cases same
                  exact ⟨entry, within, other⟩
              · rw [if_neg unpacked, Fails.ok_iff, false_iff]
                rintro ⟨_, _, _, place, name, _, same, space, _⟩
                cases same
                exact unpacked (isNamespaceValue_iff.mpr ⟨place, name, rfl, space⟩)
          | _ => simp [bindDeclarator, Node.typeName, Fails, Unpacks]
      | leaf q form => cases form <;> simp [bindDeclarator, Node.typeName, Fails, Unpacks]
      | _ => simp [bindDeclarator, Node.typeName, Fails, Unpacks]
  | leaf p form => cases form <;> simp [bindDeclarator, Node.typeName, Fails]
  | wrap p form => cases form <;> simp [bindDeclarator, Node.typeName, Fails]
  | group p form => cases form <;> simp [bindDeclarator, Node.typeName, Fails]
  | _ => simp [bindDeclarator, Node.typeName, Fails]

theorem namespaces_of_bindProperty {a b : Aliases} {n : Node} (read : a.bindProperty n = .ok b)
    : b.namespaces = a.namespaces := by
  cases n with
  | leaf p form =>
      cases form with
      | patternProperty key value =>
          cases value with
          | none =>
              obtain rfl := Except.ok.inj read
              rfl
          | some name =>
              obtain rfl := Except.ok.inj read
              split <;> rfl
      | _ => cases read
  | _ => cases read

theorem namespaces_of_bindDeclarator {a b : Aliases} {n : Node}
    (read : a.bindDeclarator n = .ok b)
    : b.namespaces = a.namespaces := by
  cases n with
  | declarator p binding init =>
      cases binding with
      | group q form properties =>
          cases form with
          | objectPattern =>
              rw [bindDeclarator] at read
              split at read
              · exact Fails.foldlM_kept (fun _ b => b.namespaces = a.namespaces)
                  (fun _ _ _ _ same step => (namespaces_of_bindProperty step).trans same)
                  [] properties rfl read
              · obtain rfl := Except.ok.inj read
                rfl
          | _ =>
              obtain rfl := Except.ok.inj read
              rfl
      | leaf q form =>
          cases form with
          | identifier name =>
              obtain rfl := Except.ok.inj read
              split <;> rfl
          | _ =>
              obtain rfl := Except.ok.inj read
              rfl
      | _ =>
          obtain rfl := Except.ok.inj read
          rfl
  | _ => cases read

theorem mem_namespaces_of_bindSpecifier {a b : Aliases} {n : Node}
    (read : a.bindSpecifier n = .ok b) (name : String)
    : name ∈ b.namespaces ↔ name ∈ a.namespaces ∨ namespaceName? n = some name := by
  cases n with
  | leaf p form =>
      cases form with
      | importSpecifier kind imported localName =>
          simp only [bindSpecifier, beq_iff_eq, bne_iff_ne] at read
          rw [namespaceName?]
          by_cases named : kind = "named"
          · rw [if_pos named] at read
            obtain rfl := Except.ok.inj read
            by_cases fragment : imported = some fragmentName
            · simp [named, fragment, addFragment]
            · simp [named, fragment]
          · rw [if_neg named] at read
            obtain rfl := Except.ok.inj read
            by_cases empty : localName = ""
            · simp [named, empty]
            · simp [named, empty, addNamespace, or_comm, eq_comm]
      | _ => cases read
  | _ => cases read

-----------------------------------------------------------------------------------------
-- Statements
-----------------------------------------------------------------------------------------

/-- A statement that could be read adds the namespaces that it makes known. -/
theorem mem_namespaces_of_bindStatement {a b : Aliases} {n : Node}
    (read : a.bindStatement n = .ok b) (name : String)
    : name ∈ b.namespaces ↔ name ∈ a.namespaces ∨ name ∈ importedNamespaces n := by
  cases n with
  | group p form parts =>
      cases form with
      | importDeclaration source =>
          rw [bindStatement] at read
          rw [importedNamespaces]
          by_cases provider : source ∈ providerModules
          · rw [if_pos provider] at read ⊢
            exact Fails.foldlM_kept
              (fun specifiers b =>
                name ∈ b.namespaces
                ↔ name ∈ a.namespaces ∨ name ∈ specifiers.filterMap namespaceName?)
              (fun specifiers b n next same step => by
                rw [mem_namespaces_of_bindSpecifier step, same, List.filterMap_append, List.mem_append,
                  or_assoc, List.mem_filterMap (l := [n])]
                simp)
              [] parts (by simp) read
          · rw [if_neg provider] at read ⊢
            obtain rfl := Except.ok.inj read
            simp
      | variableDeclaration kind =>
          have kept : b.namespaces = a.namespaces :=
            Fails.foldlM_kept (fun _ b => b.namespaces = a.namespaces)
              (fun _ _ _ _ same step => (namespaces_of_bindDeclarator step).trans same)
              [] parts rfl read
          simp [kept, importedNamespaces]
      | _ =>
          obtain rfl := Except.ok.inj read
          simp [importedNamespaces]
  | _ =>
      obtain rfl := Except.ok.inj read
      simp [importedNamespaces]

theorem bindStatement_fails_iff {a : Aliases} {known : List String}
    (same : ∀ name, name ∈ a.namespaces ↔ name ∈ known) (n : Node)
    : Fails (a.bindStatement n) ↔ Refused known n := by
  cases n with
  | group p form parts =>
      cases form with
      | importDeclaration source =>
          rw [bindStatement]
          by_cases provider : source ∈ providerModules
          · rw [if_pos provider, Fails.foldlM_iff_mem (fun _ => True) _
              (fun _ _ _ _ _ => trivial) (fun a n _ => bindSpecifier_fails_iff a n) _ trivial]
            constructor
            · rintro ⟨n, among, other⟩
              exact .specifier provider among other
            · intro refused
              cases refused with
              | specifier _ among other => exact ⟨_, among, other⟩
          · rw [if_neg provider, Fails.ok_iff, false_iff]
            intro refused
            cases refused with
            | specifier given _ _ => exact provider given
      | variableDeclaration kind =>
          rw [bindStatement, Fails.foldlM_iff_mem (fun b => b.namespaces = a.namespaces) _
            (fun _ _ _ kept step => (namespaces_of_bindDeclarator step).trans kept)
            (fun b n kept => kept ▸ bindDeclarator_fails_iff b n) _ rfl]
          constructor
          · rintro ⟨n, among, other | ⟨_, _, _, _, _, _, rfl, space, within, other⟩⟩
            · exact .declarator among other
            · exact .entry among ((same _).mp space) within other
          · intro refused
            cases refused with
            | declarator among other => exact ⟨_, among, Or.inl other⟩
            | entry among space within other =>
                exact ⟨_, among, Or.inr ⟨_, _, _, _, _, _, rfl, (same _).mpr space, within, other⟩⟩
      | _ =>
          simp only [bindStatement, Fails.ok_iff, false_iff]
          exact nofun
  | _ =>
      simp only [bindStatement, Fails.ok_iff, false_iff]
      exact nofun

/-- The scan fails if some statement cannot be read by the time the scan comes to it. -/
theorem collect_fails_iff (p : Program) : Fails (collect p) ↔ p.Refuses := by
  have keeps (read : List Node) (a : Aliases) (n : Node) (next : Aliases)
      (same : ∀ name, name ∈ a.namespaces ↔ name ∈ knownNamespaces read)
      (step : a.bindStatement n = .ok next) (name : String)
      : name ∈ next.namespaces ↔ name ∈ knownNamespaces (read ++ [n]) := by
    rw [mem_namespaces_of_bindStatement step, same]
    simp [knownNamespaces, or_assoc]
  rw [collect, Fails.foldlM_iff _ _ keeps (fun _ _ n same => bindStatement_fails_iff same n) []]
  · rfl
  · simp [knownNamespaces]

end Aliases
end JsxProvenance
