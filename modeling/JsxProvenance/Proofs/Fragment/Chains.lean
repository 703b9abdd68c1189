import JsxProvenance.Proofs.Fields.Refusal

/-! The aliases of a file as what can be derived from its bindings in source order. A binding
introduces a name for the fragment component itself, or copies a name that an earlier binding
derives. One scan finds the names at the ends of all such chains, since what it knows after some
bindings is what these bindings derive.
-/

namespace JsxProvenance

open Ast

-----------------------------------------------------------------------------------------
-- Statements
-----------------------------------------------------------------------------------------

/-- The top-level statements of a body in its order: the parts of an export in its place, and each
other statement itself.
-/
inductive TopLevel : List Node → List Node → Prop
  | nil : TopLevel [] []
  | exported {position : Position} {parts body statements : List Node}
    : TopLevel body statements
      → TopLevel (.group position (.opaqueNode "export_statement") parts :: body)
          (parts ++ statements)
  | plain {statement : Node} {body statements : List Node}
    (other : ∀ position parts, statement ≠ .group position (.opaqueNode "export_statement") parts)
    : TopLevel body statements
      → TopLevel (statement :: body) (statement :: statements)

theorem topLevelStatements_append (first second : List Node)
    : topLevelStatements (first ++ second)
      = topLevelStatements first ++ topLevelStatements second :=
  List.flatMap_append

theorem topLevelStatements_singleton {statement : Node}
    (other : ∀ position parts, statement ≠ .group position (.opaqueNode "export_statement") parts)
    : topLevelStatements [statement] = [statement] := by
  rw [topLevelStatements, List.flatMap_singleton]
  split
  · next position kind parts =>
      have apart : kind ≠ exportKind := fun same => other position parts (same ▸ rfl)
      rw [if_neg (mt beq_iff_eq.mp apart)]
  · rfl

/-- The statements that the scan reads are the top-level ones, by induction over the body. -/
theorem topLevel_topLevelStatements (body : List Node)
    : TopLevel body (topLevelStatements body) := by
  induction body with
  | nil => exact .nil
  | cons statement rest ih =>
      change TopLevel _ (topLevelStatements ([statement] ++ rest))
      rw [topLevelStatements_append]
      by_cases exports
          : ∃ position parts, statement = .group position (.opaqueNode "export_statement") parts
      · obtain ⟨position, parts, rfl⟩ := exports
        have inPlace
            : topLevelStatements [.group position (.opaqueNode "export_statement") parts]
              = parts :=
          List.append_nil parts
        rw [inPlace]
        exact ih.exported
      · have other position parts same := exports ⟨position, parts, same⟩
        rw [topLevelStatements_singleton other]
        exact ih.plain other

/-- A body has one list of top-level statements, by induction over the body. -/
theorem TopLevel.unique {body first second : List Node} (top : TopLevel body first)
    (top' : TopLevel body second)
    : first = second := by
  induction top generalizing second with
  | nil =>
      cases top'
      rfl
  | exported _ ih =>
      cases top' with
      | exported below => rw [ih below]
      | plain other => exact absurd rfl (other _ _)
  | plain other _ ih =>
      cases top' with
      | exported => exact absurd rfl (other _ _)
      | plain _ below => rw [ih below]

theorem topLevel_iff {body statements : List Node}
    : TopLevel body statements ↔ statements = topLevelStatements body := by
  constructor
  · exact fun top => top.unique (topLevel_topLevelStatements body)
  · rintro rfl
    exact topLevel_topLevelStatements body

-----------------------------------------------------------------------------------------
-- Bindings
-----------------------------------------------------------------------------------------

/-- The bindings of a statement: the specifiers of an import from a provider module, and the
declarators of a declaration.
-/
def bindingsOf : Node → List Node
  | .group _ (.importDeclaration source) specifiers =>
      if source ∈ providerModules then specifiers else []
  | .group _ (.variableDeclaration _) declarators => declarators
  | _ => []

/-- The bindings of the top-level statements in source order. -/
def Ast.Program.bindings (p : Program) : List Node :=
  (topLevelStatements p.body).flatMap bindingsOf

/-- The names of the namespace after some bindings. -/
def namespacesOf (bindings : List Node) : List String :=
  defaultNamespace :: bindings.filterMap namespaceName?

/-- A binding gives a name to the fragment component itself: it imports it, reads it from a namespace
that is known, or takes it out of one with a pattern.
-/
inductive Introduces (known : List String) : Node → String → Prop
  | imported (place : Position) (name : String)
    : Introduces known (.leaf place (.importSpecifier "named" (some fragmentName) name)) name
  | member (place left outer inner : Position) (name space : String) (listed : space ∈ known)
    : Introduces known
        (.declarator place (.leaf left (.identifier name))
          (.wrap outer (.memberExpression fragmentName) (.leaf inner (.identifier space))))
        name
  | entry (place pattern right entry : Position) (properties : List Node) (name space : String)
    (listed : space ∈ known)
    (among : .leaf entry (.patternProperty fragmentName (some name)) ∈ properties)
    (proper : name ≠ "")
    : Introduces known
        (.declarator place (.group pattern .objectPattern properties)
          (.leaf right (.identifier space)))
        name

/-- A declarator gives one identifier the value of another. -/
inductive Copies : Node → String → String → Prop
  | intro (place left right : Position) (name value : String)
    : Copies (.declarator place (.leaf left (.identifier name)) (.leaf right (.identifier value)))
        value name

/-- There is a chain of bindings, each after the one before it, that ends at a number with a name for
the fragment component: the first one introduces a name with the namespaces bound so far, and each
further one copies the name of the one before.
-/
inductive Derives (bindings : List Node) : Nat → String → Prop
  | start {i : Nat} {binding : Node} {name : String} (found : bindings[i]? = some binding)
    (introduced : Introduces (namespacesOf (bindings.take i)) binding name)
    : Derives bindings i name
  | copy {i j : Nat} {binding : Node} {value name : String} (chain : Derives bindings i value)
    (later : i < j) (found : bindings[j]? = some binding) (copied : Copies binding value name)
    : Derives bindings j name

/-- Some chain ends with the name. -/
def Derivable (bindings : List Node) (name : String) : Prop :=
  ∃ i, Derives bindings i name

/-- The specifiers of an import. -/
def specifiersOf : Node → List Node
  | .group _ (.importDeclaration _) specifiers => specifiers
  | _ => []

/-- The declarators of a declaration. -/
def declaratorsOf : Node → List Node
  | .group _ (.variableDeclaration _) declarators => declarators
  | _ => []

/-- The entries of the object pattern of a declarator. -/
def entriesOf : Node → List Node
  | .declarator _ (.group _ .objectPattern entries) _ => entries
  | _ => []

/-- The specifiers, declarators and pattern entries at the top level have their own form. -/
structure Ast.Program.Classed (p : Program) : Prop where
  specifiers
    : ∀ statement ∈ topLevelStatements p.body,
        ∀ n ∈ specifiersOf statement, n.typeName = "ImportSpecifier"
  declarators
    : ∀ statement ∈ topLevelStatements p.body,
        ∀ n ∈ declaratorsOf statement, n.typeName = "VariableDeclarator"
  entries
    : ∀ statement ∈ topLevelStatements p.body,
        ∀ n ∈ declaratorsOf statement, ∀ entry ∈ entriesOf n, entry.typeName = "PatternProperty"

/-- The scan reads every program whose parts have their own form. -/
theorem Ast.Program.Classed.not_refuses {p : Program} (classed : p.Classed) : ¬ p.Refuses := by
  rintro ⟨before, statement, after, listed, refused⟩
  have member : statement ∈ topLevelStatements p.body := by
    rw [listed]
    exact List.mem_append_right _ List.mem_cons_self
  cases refused with
  | specifier _ among other => exact other (classed.specifiers _ member _ among)
  | declarator among other => exact other (classed.declarators _ member _ among)
  | entry among _ within other => exact other (classed.entries _ member _ among _ within)

-----------------------------------------------------------------------------------------
-- One more binding
-----------------------------------------------------------------------------------------

section

variable {bindings : List Node} {binding : Node} {name : String}

theorem Derives.lt {i : Nat} (chain : Derives bindings i name) : i < bindings.length := by
  cases chain with
  | start found _ | copy _ _ found _ => exact (List.getElem?_eq_some_iff.mp found).1

/-- A chain does not depend on what is bound after its end, by induction on the chain. -/
theorem derives_append_iff {more : List Node} {i : Nat} (inside : i < bindings.length)
    : Derives (bindings ++ more) i name ↔ Derives bindings i name := by
  have taken {j : Nat} (inside : j < bindings.length)
      : (bindings ++ more).take j = bindings.take j :=
    List.take_append_of_le_length (Nat.le_of_lt inside)
  constructor
  · intro chain
    induction chain with
    | start found introduced =>
        rw [taken inside] at introduced
        rw [List.getElem?_append_left inside] at found
        exact .start found introduced
    | copy _ later found copied ih =>
        rw [List.getElem?_append_left inside] at found
        exact .copy (ih (Nat.lt_trans later inside)) later found copied
  · intro chain
    clear inside
    induction chain with
    | start found introduced =>
        have inside := (List.getElem?_eq_some_iff.mp found).1
        refine .start ((List.getElem?_append_left inside).trans found) ?_
        rwa [taken inside]
    | copy _ later found copied ih =>
        have inside := (List.getElem?_eq_some_iff.mp found).1
        exact .copy ih later ((List.getElem?_append_left inside).trans found) copied

/-- One more binding derives what it introduces, and copies of what was derived before it. -/
theorem derivable_concat
    : Derivable (bindings ++ [binding]) name
      ↔ Derivable bindings name
        ∨ Introduces (namespacesOf bindings) binding name
        ∨ ∃ value, Derivable bindings value ∧ Copies binding value name := by
  have last : (bindings ++ [binding])[bindings.length]? = some binding := List.getElem?_concat_length
  have taken : (bindings ++ [binding]).take bindings.length = bindings := List.take_left
  constructor
  · rintro ⟨i, chain⟩
    have bound := chain.lt
    rw [List.length_append, List.length_singleton] at bound
    rcases Nat.lt_succ_iff_lt_or_eq.mp bound with inside | rfl
    · exact Or.inl ⟨i, (derives_append_iff inside).mp chain⟩
    · right
      cases chain with
      | start found introduced =>
          obtain rfl := Option.some.inj (found.symm.trans last)
          rw [taken] at introduced
          exact Or.inl introduced
      | copy chain later found copied =>
          obtain rfl := Option.some.inj (found.symm.trans last)
          exact Or.inr ⟨_, ⟨_, (derives_append_iff later).mp chain⟩, copied⟩
  · rintro (⟨i, chain⟩ | introduced | ⟨value, ⟨i, chain⟩, copied⟩)
    · exact ⟨i, (derives_append_iff chain.lt).mpr chain⟩
    · refine ⟨bindings.length, .start last ?_⟩
      rwa [taken]
    · exact ⟨bindings.length,
        .copy ((derives_append_iff chain.lt).mpr chain) chain.lt last copied⟩

end

theorem Introduces.congr {n : Node} {name : String} {known known' : List String}
    (same : ∀ space, space ∈ known ↔ space ∈ known')
    : Introduces known n name ↔ Introduces known' n name := by
  constructor
  · rintro (_ | ⟨_, _, _, _, _, _, listed⟩ | ⟨_, _, _, _, _, _, _, listed, among, proper⟩)
    · exact .imported ..
    · exact .member _ _ _ _ _ _ ((same _).mp listed)
    · exact .entry _ _ _ _ _ _ _ ((same _).mp listed) among proper
  · rintro (_ | ⟨_, _, _, _, _, _, listed⟩ | ⟨_, _, _, _, _, _, _, listed, among, proper⟩)
    · exact .imported ..
    · exact .member _ _ _ _ _ _ ((same _).mpr listed)
    · exact .entry _ _ _ _ _ _ _ ((same _).mpr listed) among proper

-----------------------------------------------------------------------------------------
-- What the scan knows
-----------------------------------------------------------------------------------------

namespace Aliases

variable {a b : Aliases} {bindings : List Node} {n : Node} {name : String}

/-- The aliases are those that some bindings derive. -/
structure Knows (bindings : List Node) (a : Aliases) : Prop where
  namespaces : ∀ name, name ∈ a.namespaces ↔ name ∈ namespacesOf bindings
  fragments : ∀ name, name ∈ a.fragments ↔ Derivable bindings name

theorem mem_fragments_addFragment {a : Aliases} {given name : String}
    : name ∈ (a.addFragment given).fragments ↔ name ∈ a.fragments ∨ given = name := by
  rw [addFragment, List.mem_insert_iff, or_comm, eq_comm]

/-- What a binding adds to what is known, in terms of what was known before. -/
def Adds (a : Aliases) (n : Node) (name : String) : Prop :=
  Introduces a.namespaces n name ∨ ∃ value ∈ a.fragments, Copies n value name

/-- A binding that is read keeps the aliases those that are derivable. -/
theorem Knows.concat (knows : Knows bindings a)
    (spaces : ∀ name, name ∈ b.namespaces ↔ name ∈ a.namespaces ∨ namespaceName? n = some name)
    (names : ∀ name, name ∈ b.fragments ↔ name ∈ a.fragments ∨ a.Adds n name)
    : Knows (bindings ++ [n]) b where
  namespaces name := by
    rw [spaces, knows.namespaces, namespacesOf, namespacesOf, List.filterMap_append,
      ← List.cons_append, List.mem_append, List.mem_filterMap (l := [n])]
    simp
  fragments name := by
    rw [names, derivable_concat, knows.fragments, Adds, Introduces.congr knows.namespaces]
    simp only [knows.fragments]

theorem mem_fragments_of_bindSpecifier (read : a.bindSpecifier n = .ok b) (name : String)
    : name ∈ b.fragments ↔ name ∈ a.fragments ∨ a.Adds n name := by
  cases n with
  | leaf p form =>
      cases form with
      | importSpecifier kind imported localName =>
          have adds_iff
              : a.Adds (.leaf p (.importSpecifier kind imported localName)) name
                ↔ (kind = "named" ∧ imported = some fragmentName) ∧ localName = name := by
            constructor
            · rintro (introduced | ⟨_, _, copied⟩)
              · cases introduced
                exact ⟨⟨rfl, rfl⟩, rfl⟩
              · cases copied
            · rintro ⟨⟨rfl, rfl⟩, rfl⟩
              exact Or.inl (.imported ..)
          simp only [bindSpecifier, beq_iff_eq, bne_iff_ne] at read
          rw [adds_iff]
          by_cases named : kind = "named"
          · rw [if_pos named] at read
            obtain rfl := Except.ok.inj read
            by_cases fragment : imported = some fragmentName
            · simp [named, fragment, mem_fragments_addFragment]
            · simp [fragment]
          · rw [if_neg named] at read
            obtain rfl := Except.ok.inj read
            split <;> simp [named, addNamespace]
      | _ => cases read
  | _ => cases read

theorem mem_fragments_of_bindProperty (read : a.bindProperty n = .ok b) (name : String)
    : name ∈ b.fragments
      ↔ name ∈ a.fragments
        ∨ name ≠ "" ∧ ∃ place, n = .leaf place (.patternProperty fragmentName (some name)) := by
  cases n with
  | leaf p form =>
      cases form with
      | patternProperty key value =>
          cases value with
          | none =>
              obtain rfl := Except.ok.inj read
              simp
          | some given =>
              have entry_iff
                  : (∃ place,
                      Node.leaf p (.patternProperty key (some given))
                        = .leaf place (.patternProperty fragmentName (some name)))
                    ↔ key = fragmentName ∧ given = name := by
                simp
              rw [bindProperty] at read
              simp only [Bool.and_eq_true, beq_iff_eq, bne_iff_ne] at read
              obtain rfl := Except.ok.inj read
              rw [entry_iff]
              by_cases added : key = fragmentName ∧ given ≠ ""
              · rw [if_pos added, mem_fragments_addFragment]
                refine or_congr_right ⟨fun same => ⟨same ▸ added.2, added.1, same⟩, fun h => h.2.2⟩
              · rw [if_neg added]
                refine ⟨Or.inl, fun known => known.resolve_right ?_⟩
                rintro ⟨proper, key, rfl⟩
                exact added ⟨key, proper⟩
      | _ => cases read
  | _ => cases read

/-- A pattern adds the names of all its entries for the fragment component. -/
theorem mem_fragments_of_bindProperties {properties : List Node}
    (read : properties.foldlM bindProperty a = .ok b) (name : String)
    : name ∈ b.fragments
      ↔ name ∈ a.fragments
        ∨ name ≠ "" ∧ ∃ place,
          .leaf place (.patternProperty fragmentName (some name)) ∈ properties := by
  refine Fails.foldlM_kept
    (fun read b =>
      name ∈ b.fragments
      ↔ name ∈ a.fragments
        ∨ name ≠ "" ∧ ∃ place, .leaf place (.patternProperty fragmentName (some name)) ∈ read)
    ?_ [] properties (by simp) read
  intro before middle entry next known step
  rw [mem_fragments_of_bindProperty step, known, or_assoc, ← and_or_left, ← exists_or]
  simp only [List.mem_append, List.mem_singleton, eq_comm]

theorem mem_fragments_of_bindDeclarator (read : a.bindDeclarator n = .ok b) (name : String)
    : name ∈ b.fragments ↔ name ∈ a.fragments ∨ a.Adds n name := by
  cases n with
  | declarator p binding init =>
      cases binding with
      | leaf q form =>
          cases form with
          | identifier given =>
              have adds_iff
                  : a.Adds (.declarator p (.leaf q (.identifier given)) init) name
                    ↔ a.isFragmentValue init = true ∧ given = name := by
                constructor
                · rintro (introduced | ⟨_, listed, copied⟩)
                  · cases introduced with
                    | member _ _ _ _ _ _ listed => simp [isFragmentValue, listed]
                  · cases copied
                    exact ⟨by simpa [isFragmentValue] using listed, rfl⟩
                · rintro ⟨known, rfl⟩
                  unfold isFragmentValue at known
                  split at known
                  · exact Or.inr ⟨_, by simpa using known, .intro ..⟩
                  · simp only [Bool.and_eq_true, decide_eq_true_eq, beq_iff_eq] at known
                    obtain ⟨listed, rfl⟩ := known
                    exact Or.inl (.member _ _ _ _ _ _ listed)
                  · cases known
              obtain rfl := Except.ok.inj read
              rw [adds_iff]
              by_cases known : a.isFragmentValue init = true
              · simp [known, mem_fragments_addFragment]
              · simp [known]
          | _ =>
              obtain rfl := Except.ok.inj read
              refine (or_iff_left ?_).symm
              rintro (introduced | ⟨_, _, copied⟩)
              · cases introduced
              · cases copied
      | group q form properties =>
          cases form with
          | objectPattern =>
              have adds_iff
                  : a.Adds (.declarator p (.group q .objectPattern properties) init) name
                    ↔ a.isNamespaceValue init = true
                      ∧ name ≠ ""
                      ∧ ∃ place,
                        .leaf place (.patternProperty fragmentName (some name)) ∈ properties := by
                rw [isNamespaceValue_iff]
                constructor
                · rintro (introduced | ⟨_, _, copied⟩)
                  · cases introduced with
                    | entry _ _ right entry _ _ space listed among proper =>
                        exact ⟨⟨right, space, rfl, listed⟩, proper, entry, among⟩
                  · cases copied
                · rintro ⟨⟨right, space, rfl, listed⟩, proper, entry, among⟩
                  exact Or.inl (.entry _ _ _ _ _ _ _ listed among proper)
              rw [bindDeclarator] at read
              rw [adds_iff]
              by_cases unpacked : a.isNamespaceValue init = true
              · rw [if_pos unpacked] at read
                rw [mem_fragments_of_bindProperties read, and_iff_right unpacked]
              · rw [if_neg unpacked] at read
                obtain rfl := Except.ok.inj read
                simp [unpacked]
          | _ =>
              obtain rfl := Except.ok.inj read
              refine (or_iff_left ?_).symm
              rintro (introduced | ⟨_, _, copied⟩)
              · cases introduced
              · cases copied
      | _ =>
          obtain rfl := Except.ok.inj read
          refine (or_iff_left ?_).symm
          rintro (introduced | ⟨_, _, copied⟩)
          · cases introduced
          · cases copied
  | _ => cases read

theorem namespaceName?_of_bindDeclarator (read : a.bindDeclarator n = .ok b)
    : namespaceName? n = none := by
  cases n with
  | leaf => cases read
  | _ => rfl

/-- A statement that is read keeps the aliases those that are derivable, by cases on the statements
that bind anything.
-/
theorem Knows.statement (knows : Knows bindings a) (read : a.bindStatement n = .ok b)
    : Knows (bindings ++ bindingsOf n) b := by
  have unbound (nothing : bindingsOf n = []) (same : b = a)
      : Knows (bindings ++ bindingsOf n) b := by
    rwa [nothing, List.append_nil, same]
  cases n with
  | group p form parts =>
      cases form with
      | importDeclaration source =>
          rw [bindStatement] at read
          by_cases provider : source ∈ providerModules
          · rw [if_pos provider] at read
            rw [bindingsOf, if_pos provider]
            refine Fails.foldlM_kept (fun read b => Knows read b) ?_ bindings parts knows read
            intro before middle specifier next known step
            exact known.concat (mem_namespaces_of_bindSpecifier step)
              (mem_fragments_of_bindSpecifier step)
          · rw [if_neg provider] at read
            exact unbound (if_neg provider) (Except.ok.inj read).symm
      | variableDeclaration kind =>
          refine Fails.foldlM_kept (fun read b => Knows read b) ?_ bindings parts knows read
          intro before middle declarator next known step
          refine known.concat (fun name => ?_) (mem_fragments_of_bindDeclarator step)
          rw [namespaces_of_bindDeclarator step, namespaceName?_of_bindDeclarator step]
          simp
      | _ => exact unbound rfl (Except.ok.inj read).symm
  | _ => exact unbound rfl (Except.ok.inj read).symm

/-- Before the first statement the default namespace is known, and no name is derivable. -/
theorem knows_nil : Knows [] {} where
  namespaces _ := Iff.rfl
  fragments name := by
    refine ⟨nofun, ?_⟩
    rintro ⟨i, chain⟩
    exact absurd chain.lt (Nat.not_lt_zero i)

/-- What the scan finds is what the bindings of the file derive, by induction over the top-level
statements.
-/
theorem knows_of_collect {p : Program} {aliases : Aliases} (found : collect p = .ok aliases)
    : Knows p.bindings aliases := by
  refine Fails.foldlM_kept (fun read b => Knows (read.flatMap bindingsOf) b) ?_ []
    (topLevelStatements p.body) knows_nil found
  intro before middle statement next known step
  rw [List.flatMap_append, List.flatMap_singleton]
  exact known.statement step

end Aliases

/-- The aliases of a file are exactly those that can be derived in source order. The bindings are
those of the top-level statements, the parts of an export among these in its place. The names of the
namespace are the default one and those bound by specifiers, and the names of the fragment component
are those at the ends of chains of bindings.
-/
theorem Aliases.collect_derivable {p : Program} (classed : p.Classed)
    : (∀ statements, TopLevel p.body statements ↔ statements = topLevelStatements p.body)
      ∧ ∃ aliases,
        collect p = .ok aliases
        ∧ (∀ name,
          name ∈ aliases.namespaces
          ↔ name = defaultNamespace ∨ ∃ binding ∈ p.bindings, namespaceName? binding = some name)
        ∧ ∀ name, name ∈ aliases.fragments ↔ ∃ i, Derives p.bindings i name := by
  refine ⟨fun _ => topLevel_iff, ?_⟩
  cases found : collect p with
  | error error => exact absurd ((collect_fails_iff p).mp ⟨error, found⟩) classed.not_refuses
  | ok aliases =>
      have knows := knows_of_collect found
      refine ⟨aliases, rfl, fun name => ?_, knows.fragments⟩
      rw [knows.namespaces, namespacesOf, List.mem_cons, List.mem_filterMap]

/-- A file that imports a namespace and a fragment, and goes on from them: an exported declaration of
three names, two that depend on a later one, and a declaration inside of a function.
-/
def renamings : Program where
  body := [
    .group {} (.importDeclaration "react") [
      .leaf {} (.importSpecifier "default" none "R"),
      .leaf {} (.importSpecifier "named" (some "Fragment") "F")
    ],
    .group {} (.opaqueNode "export_statement") [
      .group {} (.variableDeclaration "const") [
        .declarator {} (.leaf {} (.identifier "A"))
          (.wrap {} (.memberExpression "Fragment") (.leaf {} (.identifier "R"))),
        .declarator {} (.leaf {} (.identifier "B")) (.leaf {} (.identifier "A")),
        .declarator {}
          (.group {} .objectPattern [.leaf {} (.patternProperty "Fragment" (some "C"))])
          (.leaf {} (.identifier "React"))
      ]
    ],
    .group {} (.variableDeclaration "const") [
      .declarator {} (.leaf {} (.identifier "Early")) (.leaf {} (.identifier "Late")),
      .declarator {} (.leaf {} (.identifier "Late")) (.leaf {} (.identifier "B"))
    ],
    .wrap {} (.functionDeclaration "f") (.group {} .blockStatement [
      .group {} (.variableDeclaration "const") [
        .declarator {} (.leaf {} (.identifier "Inner")) (.leaf {} (.identifier "F"))
      ]
    ])
  ]

/-- The last name is at the end of a chain of three bindings. The name that copies it too early is at
the end of none, and neither is the one inside of the function.
-/
theorem collect_derivable_renamings
    : (∃ i, Derives renamings.bindings i "Late")
      ∧ (¬ ∃ i, Derives renamings.bindings i "Early")
      ∧ ¬ ∃ i, Derives renamings.bindings i "Inner" := by
  have classed : renamings.Classed := ⟨by decide, by decide, by decide⟩
  obtain ⟨_, aliases, found, _, fragments⟩ := Aliases.collect_derivable classed
  have scanned
      : Aliases.collect renamings
        = .ok { fragments := ["Late", "C", "B", "A", "F"], namespaces := ["R", "React"] } := rfl
  obtain rfl := Except.ok.inj (scanned.symm.trans found)
  simp only [← fragments]
  decide

end JsxProvenance
