import JsxProvenance.Proofs.Cst.Checked
import JsxProvenance.Proofs.Cst.Typing
import JsxProvenance.Proofs.Fields.Rendering

/-! Everything that is done with a concrete tree: it is read, its aliases are collected, its components
are found, and runs with any settings are made on it in turn and rendered. The lists that the scan for
aliases reads hold what it expects there, since the syntax of every concrete tree is well typed, and so
every step returns, whatever the tree is.
-/

namespace JsxProvenance

open Ast

/-- A top-level statement is part of the program, directly or in an export. -/
theorem Ast.Program.mem_trail_of_statement {p : Program} {statement : Node}
    (listed : statement ∈ topLevelStatements p.body) (syntactic : statement.isSyntax = true)
    : statement ∈ p.toNode.trail := by
  obtain ⟨top, inBody, given⟩ := List.mem_flatMap.mp listed
  refine Node.mem_trail_of_part inBody ?_
  have self := Node.mem_trail_self syntactic
  split at given
  · split at given
    · exact Node.mem_trail_of_part given self
    · obtain rfl := List.mem_singleton.mp given
      exact self
  · obtain rfl := List.mem_singleton.mp given
    exact self

/-- A well typed program has no statement that the scan for aliases cannot read. -/
theorem Ast.Program.not_refuses_of_typed {p : Program}
    (typed : ∀ place ∈ p.walk, place.node.WellTyped)
    : ¬ p.Refuses := by
  rintro ⟨before, statement, after, listed, refused⟩
  have typed : p.toNode.Typed := by
    rw [Node.Typed, ← Program.map_node_walk]
    exact List.forall_mem_map.mpr typed
  have syntactic : statement.isSyntax = true := by
    cases refused <;> rfl
  have own : statement ∈ p.toNode.trail := by
    refine mem_trail_of_statement ?_ syntactic
    rw [listed]
    exact List.mem_append_right _ List.mem_cons_self
  cases refused with
  | specifier _ among other => exact other (typed _ own _ among)
  | declarator among other => exact other (typed _ own _ among)
  | @entry _ _ _ _ pattern properties _ _ n among _ within other =>
      have inDeclarator : Node.group pattern .objectPattern properties ∈ p.toNode.trail := by
        refine Node.mem_trail_trans own (Node.mem_trail_of_part among ?_)
        simp
      exact other (typed _ inDeclarator _ within)

namespace Cst

/-- No concrete tree stops anything that is done with it. It is read to its end, the aliases of the
program are collected and its components found, and runs with any settings return one after the other,
each with the text that it leaves. Imports, declarations and patterns hold only what the scan for
aliases reads in them, no list holds nothing, and no attribute is marked as inserted.
-/
theorem toProgram_returns (filename : String) (source : List UInt8) (root : Cst)
    : readProgram source filename root = .ok (root.toProgram filename source)
      ∧ (∃ aliases, Aliases.collectByField (root.toProgram filename source) = .ok aliases)
      ∧ (∀ path packages,
          discoverByField (root.toProgram filename source) path packages
          = .ok (discover (root.toProgram filename source) path packages))
      ∧ (∀ runs, ∃ results left,
          (Program.annotateInTurn runs).Does (root.toProgram filename source) results left
          ∧ results.length = runs.length)
      ∧ ∀ place ∈ (root.toProgram filename source).walk, place.node.WellTyped := by
  have typed := toProgram_typed filename source root
  have readable : ¬ Fails (Aliases.collect (root.toProgram filename source)) := by
    rw [Aliases.collect_fails_iff]
    exact Program.not_refuses_of_typed typed
  obtain ⟨aliases, read⟩
      : ∃ aliases, Aliases.collect (root.toProgram filename source) = .ok aliases := by
    cases read : Aliases.collect (root.toProgram filename source) with
    | ok aliases => exact ⟨aliases, rfl⟩
    | error fault => exact absurd ⟨fault, read⟩ readable
  refine ⟨readProgram_eq filename root, ⟨aliases, ?_⟩, discoverByField_eq _,
    Program.annotateInTurn_returns read, typed⟩
  rw [Aliases.collectByField_eq, read]
  rfl

/-- A tree of which almost nothing is in its place: an import without a source, a declaration that
holds a string, a pattern with an error in it, an element whose tag comes last and has no name, and a
class whose body is a tag.
-/
def scrambled : Cst :=
  .node "program" none true 9 4
    [
      .node "import_statement" none true 3 7
        [
          .node "import_clause" none true 5 5
            [
              .node "ERROR" none true 2 1 [],
              .node "namespace_import" none true 0 0 [],
              .node "named_imports" none true 1 1 [.node "import_specifier" none true 8 2 []]
            ]
        ],
      .node "lexical_declaration" none true 6 2
        [
          .node "string" none true 0 1 [],
          .node "variable_declarator" none true 0 9
            [
              .node "object_pattern" (some "name") true 4 2
                [.node "ERROR" none true 0 1 [], .node "pair_pattern" none true 1 0 []]
            ]
        ],
      .node "jsx_element" none true 4 1
        [
          .node "jsx_text" none true 0 0 [],
          .node "jsx_opening_element" (some "open_tag") true 7 3 []
        ],
      .node "class_declaration" none true 5 5
        [.node "jsx_self_closing_element" (some "body") true 2 2 [.node "return" none true 0 0 []]],
      .node "parenthesized_expression" none true 8 8 []
    ]

/-- The tree is read, and two runs on its program return. -/
theorem toProgram_returns_scrambled
    : (scrambled.toProgram "" []).body.map Node.typeName
        = ["ImportDeclaration", "VariableDeclaration", "JSXFragment", "ClassDeclaration",
          "OpaqueNode"]
      ∧ readProgram [] "" scrambled = .ok (scrambled.toProgram "" [])
      ∧ ∃ results left,
          (Program.annotateInTurn [({}, none), ({ policy := .legacy }, some "a.tsx")]).Does
            (scrambled.toProgram "" []) results left
          ∧ results.length = 2 := by
  obtain ⟨read, _, _, runs, _⟩ := toProgram_returns "" [] scrambled
  exact ⟨rfl, read, runs _⟩

end Cst
end JsxProvenance
