import JsxProvenance.Proofs.Component.RootOrder
import JsxProvenance.Proofs.Cst.SourceOrder

/-! The program of a concrete tree in order. A walk meets the nodes at positions that never decrease,
and elements and fragments at positions that increase, so none is met twice. Components are found along
the walk, and the roots of each follow each other in it.
-/

namespace JsxProvenance.Cst

open Ast

variable {source : List UInt8} {root : Cst}

/-- The walk of a program meets its nodes in order. -/
theorem toProgram_inOrder (readable : root.Readable source) (filename : String)
    : InOrder source 0 root.stop ((root.toProgram filename source).walk.map (·.node)) := by
  rw [Program.map_node_walk, Program.toNode, Node.trail_group]
  have each (c : Cst) (child : c ∈ root.children) : c.KeepsOrder source :=
    keepsOrder (readable.child child)
  have body := list_inOrder readable.ordered each (root.kind == exportKind)
  exact (body.widen (Nat.zero_le _) le_rfl).cons (Nat.zero_le _) rfl rfl

/-- A program that is walked in order. -/
theorem pairwise_key {start stop : Nat} {places : List Place}
    (inOrder : InOrder source start stop (places.map (·.node)))
    : (places.map (·.node.key)).Pairwise (· ≤ ·)
      ∧ ((places.filter (·.node.isJsx)).map (·.node.key)).Pairwise (· < ·) := by
  have sorted := inOrder.sorted
  rw [List.pairwise_map] at sorted
  rw [List.pairwise_map, List.pairwise_map]
  refine ⟨sorted.imp fun follows => follows.1, ?_⟩
  refine (sorted.filter _).imp_of_mem fun first second follows => ?_
  exact follows.2 (List.mem_filter.mp first).2 (List.mem_filter.mp second).2

theorem line_le_of_key_le {m n : Node} (le : m.key ≤ n.key) : m.position.line ≤ n.position.line := by
  rcases Prod.Lex.toLex_le_toLex.mp le with less | ⟨same, _⟩
  · exact Nat.le_of_lt less
  · exact Nat.le_of_eq same

/-- The components that are found, none or all of those defined, come from a part of the walk. -/
theorem exists_discovered (p : Program) (path : Option String) (packages : List String)
    : ∃ places : List Place,
        places.Sublist p.walk
        ∧ places.map componentAt? = (discover p path packages).map some := by
  rw [discover]
  split
  · exact ⟨[], List.nil_sublist _, rfl⟩
  · exact exists_definitions p

/-- A component is on the line of its definition. -/
theorem lines_of_definitions {places : List Place} {found : List Component}
    (defined : places.map componentAt? = found.map some)
    : found.map (·.line) = places.map (·.node.position.line) := by
  induction places generalizing found with
  | nil =>
      obtain rfl := List.map_eq_nil_iff.mp defined.symm
      rfl
  | cons place rest ih =>
      cases found with
      | nil => cases defined
      | cons c others =>
          obtain ⟨first, later⟩ := List.cons.inj defined
          rw [List.map_cons, List.map_cons, ih later, line_of_componentAt? first]

/-- The program of a tree in order keeps the order of the source, and nothing is in it twice. The lines
and columns of the nodes that its walk meets never decrease, and those of the elements and fragments
increase. The components that are found are defined along the walk, at positions and on lines that
never decrease, and the positions of the roots of each increase.
-/
theorem toProgram_keeps_order (ordered : root.InSourceOrder) (inside : root.stop ≤ source.length)
    (filename : String)
    : ((root.toProgram filename source).walk.map (·.node.key)).Pairwise (· ≤ ·)
      ∧ (((root.toProgram filename source).walk.filter (·.node.isJsx)).map (·.node.key)).Pairwise
          (· < ·)
      ∧ ∀ path packages,
          (∃ places : List Place,
            places.Sublist (root.toProgram filename source).walk
            ∧ places.map componentAt?
              = (discover (root.toProgram filename source) path packages).map some
            ∧ (places.map (·.node.key)).Pairwise (· ≤ ·))
          ∧ ((discover (root.toProgram filename source) path packages).map (·.line)).Pairwise
              (· ≤ ·)
          ∧ ∀ c ∈ discover (root.toProgram filename source) path packages,
              (c.roots.map (·.node.key)).Pairwise (· < ·) := by
  generalize same : root.toProgram filename source = p
  have inOrder : InOrder source 0 root.stop (p.walk.map (·.node)) :=
    same ▸ toProgram_inOrder ⟨ordered, inside⟩ filename
  obtain ⟨positions, jsx⟩ := pairwise_key inOrder
  refine ⟨positions, jsx, fun path packages => ?_⟩
  obtain ⟨places, along, defined⟩ := exists_discovered p path packages
  have placed : (places.map (·.node.key)).Pairwise (· ≤ ·) :=
    positions.sublist (along.map _)
  refine ⟨⟨places, along, defined, placed⟩, ?_, fun c found => ?_⟩
  · rw [lines_of_definitions defined, List.pairwise_map]
    rw [List.pairwise_map] at placed
    exact placed.imp line_le_of_key_le
  · have among : some c ∈ places.map componentAt? := by
      rw [defined]
      exact List.mem_map_of_mem found
    obtain ⟨place, member, definition⟩ := List.mem_map.mp among
    have within : c.roots.Sublist (p.walk.filter (·.node.isJsx)) :=
      (roots_sublist definition).trans (Place.jsx_sublist_of_mem_walk (along.subset member))
    exact jsx.sublist (within.map _)

/-- The tree of an arrow that returns one of two elements, the second of which spans two lines. -/
def choice : Cst :=
  .node "program" none true 0 50
    [
      .node "lexical_declaration" none true 0 50
        [
          .node "const" none false 0 5 [],
          .node "variable_declarator" none true 6 50
            [
              .node "identifier" (some "name") true 6 7 [],
              .node "arrow_function" (some "value") true 10 50
                [
                  .node "statement_block" (some "body") true 16 50
                    [
                      .node "return_statement" none true 18 48
                        [
                          .node "ternary_expression" none true 25 48
                            [
                              .node "identifier" (some "condition") true 25 26 [],
                              .node "jsx_self_closing_element" (some "consequence") true 29 33
                                [.node "identifier" (some "name") true 30 31 []],
                              .node "jsx_element" (some "alternative") true 36 48
                                [
                                  .node "jsx_opening_element" (some "open_tag") true 36 39
                                    [.node "identifier" (some "name") true 37 38 []],
                                  .node "jsx_self_closing_element" none true 40 44
                                    [.node "identifier" (some "name") true 41 42 []],
                                  .node "jsx_closing_element" (some "close_tag") true 44 48
                                    [.node "identifier" (some "name") true 46 47 []]
                                ]
                            ]
                        ]
                    ]
                ]
            ]
        ]
    ]

/-- The text of the tree. -/
def choiceText : List UInt8 :=
  Utf8.bytes "const A = () => \x7b return c ? <b/> : <i>\n<u/></i> \x7d"

/-- The tree is in order, and the two roots of its component follow each other. -/
theorem toProgram_keeps_order_choice
    : choice.InSourceOrder
      ∧ choice.stop ≤ choiceText.length
      ∧ ((choice.toProgram "" choiceText).walk.filter (·.node.isJsx)).map (·.node.position)
        = [⟨1, 30⟩, ⟨1, 37⟩, ⟨2, 1⟩]
      ∧ (discover (choice.toProgram "" choiceText) none []).map
          (fun c => (c.name, c.line, c.roots.map (·.node.position)))
        = [("A", 1, [⟨1, 30⟩, ⟨1, 37⟩])]
      ∧ ∀ c ∈ discover (choice.toProgram "" choiceText) none [],
          (c.roots.map (·.node.key)).Pairwise (· < ·) := by
  have ordered : choice.InSourceOrder := by decide
  have inside : choice.stop ≤ choiceText.length := by
    decide
  obtain ⟨_, _, found⟩ := toProgram_keeps_order ordered inside ""
  exact ⟨ordered, inside, by decide +kernel, by decide +kernel, (found none []).2.2⟩

end JsxProvenance.Cst
