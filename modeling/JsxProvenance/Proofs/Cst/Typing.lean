import JsxProvenance.Proofs.Cst.Conversion

/-! What stands in the lists of a syntax tree that was made of a concrete tree. Whatever the concrete
tree holds, imports, declarations and patterns hold nothing but the forms that the scan for aliases
reads there, no list holds nothing, and no attribute is marked as inserted.
-/

namespace JsxProvenance

open Ast

namespace Ast

/-- What a list of parts takes. The scan for aliases reads one form in each of the first three. -/
def Group.Takes : Group → Node → Prop
  | importDeclaration _, n => n.typeName = "ImportSpecifier"
  | variableDeclaration _, n => n.typeName = "VariableDeclarator"
  | objectPattern, n => n.typeName = "PatternProperty"
  | _, n => n.isSyntax = true

namespace Node

/-- The lists of a node hold what they take, and an attribute is not marked. -/
def WellTyped : Node → Prop
  | group _ form parts => ∀ n ∈ parts, form.Takes n
  | element _ _ attributes children _ _ => ∀ n ∈ attributes ++ children, n.isSyntax = true
  | leaf _ (.jsxAttribute _ _ inserted) => inserted = false
  | _ => True

/-- All syntax of a tree is well typed. -/
def Typed (n : Node) : Prop :=
  ∀ m ∈ n.trail, m.WellTyped

variable {p : Position} {n : Node}

theorem Typed.absent : Node.absent.Typed := by
  simp [Typed]

theorem Typed.leaf {form : Leaf} (own : (Node.leaf p form).WellTyped) : (Node.leaf p form).Typed := by
  simpa [Typed] using own

theorem Typed.wrap (form : Wrapper) (part : n.Typed) : (Node.wrap p form n).Typed := by
  intro m member
  rw [trail_wrap] at member
  rcases List.mem_cons.mp member with rfl | below
  · trivial
  · exact part m below

theorem Typed.declarator {binding init : Node} (first : binding.Typed) (second : init.Typed)
    : (Node.declarator p binding init).Typed := by
  intro m member
  rw [trail_declarator] at member
  rcases List.mem_cons.mp member with rfl | below
  · trivial
  · rcases List.mem_append.mp below with left | right
    · exact first m left
    · exact second m right

theorem Typed.conditional {test consequent alternate : Node} (first : test.Typed)
    (second : consequent.Typed) (third : alternate.Typed)
    : (Node.conditional p test consequent alternate).Typed := by
  intro m member
  rw [trail_conditional] at member
  rcases List.mem_cons.mp member with rfl | below
  · trivial
  · rcases List.mem_append.mp below with left | others
    · exact first m left
    · rcases List.mem_append.mp others with middle | right
      · exact second m middle
      · exact third m right

theorem Typed.group {form : Group} {parts : List Node} (takes : ∀ n ∈ parts, form.Takes n)
    (each : ∀ n ∈ parts, n.Typed)
    : (Node.group p form parts).Typed := by
  intro m member
  rw [trail_group] at member
  rcases List.mem_cons.mp member with rfl | below
  · exact takes
  · obtain ⟨n, part, inside⟩ := List.mem_flatMap.mp below
    exact each n part m inside

theorem Typed.element {attributes children : List Node} {selfClosing : Bool} {offset : Option Nat}
    (name : n.Typed) (syntactic : ∀ n ∈ attributes ++ children, n.isSyntax = true)
    (each : ∀ n ∈ attributes ++ children, n.Typed)
    : (Node.element p n attributes children selfClosing offset).Typed := by
  intro m member
  rw [trail_element, ← List.flatMap_append] at member
  rcases List.mem_cons.mp member with rfl | below
  · exact syntactic
  · rcases List.mem_append.mp below with inName | inList
    · exact name m inName
    · obtain ⟨n, part, inside⟩ := List.mem_flatMap.mp inList
      exact each n part m inside

end Node
end Ast

namespace Cst

variable {source : List UInt8} {n : Cst}

-----------------------------------------------------------------------------------------
-- Nodes that are read without their children
-----------------------------------------------------------------------------------------

/-- What one node may give is typed if what it gives is. -/
theorem typed_getD {f : Cst → Node} {n? : Option Cst} (each : ∀ c ∈ n?, (f c).Typed)
    : ((n?.map f).getD .absent).Typed := by
  cases n? with
  | none => exact .absent
  | some c => exact each c rfl

/-- A tag name is typed, by induction on size. -/
theorem toTagName_typed (n : Cst) : (toTagName source n).Typed := by
  have found {f : Cst → Bool} {ns : List Cst} (each : ∀ c ∈ ns, (toTagName source c).Typed)
      : (((ns.find? f).map (toTagName source)).getD .absent).Typed :=
    typed_getD fun c given => each c (List.mem_of_find?_eq_some given)
  induction n using sizeInduction with
  | step n ih =>
      have below (c : Cst) (child : c ∈ n.children) := ih c (sizeOf_lt_of_child child)
      cases n with
      | node kind field named start stop children =>
          rw [toTagName, fieldToTagName_eq, firstToTagName_eq]
          split
          · exact .leaf trivial
          · split
            · split
              · exact .leaf trivial
              · exact .absent
            · split
              · split
                · exact .wrap _ (found below)
                · split
                  · exact .wrap _ (found below)
                  · exact .absent
              · exact .absent

/-- An import holds specifiers only, whatever its clauses hold. -/
theorem toImport_typed (n : Cst) : (toImport source n).Typed := by
  have leaf (part : Cst) {specifier : Node} (member : specifier ∈ toSpecifiers source part)
      : ∃ p kind imported localName,
          specifier = .leaf p (.importSpecifier kind imported localName) := by
    rw [toSpecifiers] at member
    split at member
    · exact ⟨_, _, _, _, List.mem_singleton.mp member⟩
    · split at member
      · exact ⟨_, _, _, _, List.mem_singleton.mp member⟩
      · cases member
    · obtain ⟨spec, _, rfl⟩ := List.mem_map.mp member
      exact ⟨_, _, _, _, rfl⟩
    · cases member
  have each {specifier : Node} (member : specifier ∈ List.flatMap
        (fun clause => clause.parts.flatMap (toSpecifiers source))
        (n.children.filter fun c => c.named && c.kind == "import_clause"))
      : specifier.typeName = "ImportSpecifier" ∧ specifier.Typed := by
    obtain ⟨clause, _, inClause⟩ := List.mem_flatMap.mp member
    obtain ⟨part, _, made⟩ := List.mem_flatMap.mp inClause
    obtain ⟨p, kind, imported, localName, rfl⟩ := leaf part made
    exact ⟨rfl, .leaf trivial⟩
  exact .group (fun _ member => (each member).1) fun _ member => (each member).2

/-- An object pattern holds entries only, and none for a default or a rest. -/
theorem objectPattern_typed (p : Position) (ns : List Cst)
    : (Node.group p .objectPattern (ns.filterMap (toProperty? source))).Typed := by
  have each {entry : Node} (member : entry ∈ ns.filterMap (toProperty? source))
      : entry.typeName = "PatternProperty" ∧ entry.Typed := by
    obtain ⟨n, _, made⟩ := List.mem_filterMap.mp member
    rw [toProperty?] at made
    split at made
    · cases made
      exact ⟨rfl, .leaf trivial⟩
    · cases made
      exact ⟨rfl, .leaf trivial⟩
    · cases made
  exact .group (fun _ member => (each member).1) fun _ member => (each member).2

-----------------------------------------------------------------------------------------
-- Nodes that are read with their children
-----------------------------------------------------------------------------------------

/-- The syntax of a node is well typed, and there is some. -/
def GivesTyped (source : List UInt8) (n : Cst) : Prop :=
  ∀ exported, (toAst source exported n).isSyntax = true ∧ (toAst source exported n).Typed

theorem list_typed (each : ∀ c ∈ n.children, c.GivesTyped source) (exported : Bool)
    : ∀ m ∈ listToAst source exported n.children, m.isSyntax = true ∧ m.Typed := by
  rw [listToAst_eq]
  intro m member
  obtain ⟨c, chosen, rfl⟩ := List.mem_map.mp member
  exact each c (List.mem_of_mem_filter chosen) exported

theorem group_typed (each : ∀ c ∈ n.children, c.GivesTyped source) (exported : Bool)
    (p : Position) (form : Group) (plain : ∀ m : Node, m.isSyntax = true → form.Takes m)
    : (Node.group p form (listToAst source exported n.children)).Typed :=
  .group (fun m member => plain m (list_typed each exported m member).1)
    fun m member => (list_typed each exported m member).2

theorem first_typed (each : ∀ c ∈ n.children, c.GivesTyped source)
    : (firstToAst source n.children).Typed := by
  rw [firstToAst_eq]
  exact typed_getD fun c given => (each c (List.mem_of_find?_eq_some given) false).2

theorem isSyntax_firstToAst (each : ∀ c ∈ n.children, c.GivesTyped source)
    (single : n.parts.length = 1)
    : (firstToAst source n.children).isSyntax = true := by
  obtain ⟨part, only⟩ := List.length_eq_one_iff.mp single
  have found : n.children.find? isStructural = some part := by
    rw [← List.head?_filter, ← parts, only]
    rfl
  rw [firstToAst_eq, found]
  exact (each part (List.mem_of_find?_eq_some found) false).1

theorem field_typed (each : ∀ c ∈ n.children, c.GivesTyped source) (name : String)
    : (fieldToAst source name n.children).Typed := by
  rw [fieldToAst_eq]
  exact typed_getD fun c given => (each c (List.mem_of_find?_eq_some given) false).2

theorem content_typed (each : ∀ c ∈ n.children, c.GivesTyped source)
    : ∀ m ∈ contentToAst source n.children, m.isSyntax = true ∧ m.Typed := by
  rw [contentToAst_eq]
  intro m member
  obtain ⟨c, chosen, rfl⟩ := List.mem_map.mp member
  exact each c (List.mem_of_mem_filter chosen) false

/-- A declaration holds declarators only, whatever else stands among its children. -/
theorem declarators_typed (each : ∀ c ∈ n.children, c.GivesTyped source) (p : Position)
    (word : String)
    : (Node.group p (.variableDeclaration word) (declaratorsToAst source n.children)).Typed := by
  have chosen {m : Node} (member : m ∈ declaratorsToAst source n.children)
      : m.typeName = "VariableDeclarator" ∧ m.Typed := by
    rw [declaratorsToAst_eq] at member
    obtain ⟨c, found, rfl⟩ := List.mem_map.mp member
    obtain ⟨child, kept⟩ := List.mem_filter.mp found
    refine ⟨?_, (each c child false).2⟩
    have kind : c.kind = "variable_declarator" := eq_of_beq (Bool.and_eq_true_iff.mp kept).2
    cases c
    cases kind
    rfl
  exact .group (fun _ member => (chosen member).1) fun _ member => (chosen member).2

/-- The children of all smaller nodes give typed syntax. -/
def SmallerTyped (source : List UInt8) (n : Cst) : Prop :=
  ∀ m : Cst, sizeOf m < sizeOf n → m.GivesTyped source

theorem SmallerTyped.child (smaller : n.SmallerTyped source) {c : Cst} (child : c ∈ n.children)
    : c.SmallerTyped source :=
  fun m less => smaller m (Nat.lt_trans less (sizeOf_lt_of_child child))

theorem SmallerTyped.each (smaller : n.SmallerTyped source)
    : ∀ c ∈ n.children, c.GivesTyped source :=
  fun c child => smaller c (sizeOf_lt_of_child child)

/-- The members of a class are those of its body, whatever the body is. -/
theorem members_typed (smaller : n.SmallerTyped source) (p : Position) (name : Option String)
    : (Node.group p (.classDeclaration name) (membersToAst source n.children)).Typed := by
  rw [membersToAst_eq]
  cases found : n.children.find? (·.field == some "body") with
  | none => exact .group nofun nofun
  | some body =>
      have child := List.mem_of_find?_eq_some found
      exact group_typed (smaller.child child).each _ p _ fun _ syntactic => syntactic

theorem attributes_typed (smaller : n.SmallerTyped source)
    : ∀ m ∈ attributesToAst source n.children, m.isSyntax = true ∧ m.Typed := by
  rw [attributesToAst_eq]
  intro m member
  obtain ⟨c, chosen, rfl⟩ := List.mem_map.mp member
  have child := List.mem_of_mem_filter (List.mem_of_mem_filter chosen)
  rw [tagPartToAst]
  split
  · exact ⟨rfl, .leaf rfl⟩
  · exact ⟨rfl, group_typed (smaller.child child).each false _ _ fun _ syntactic => syntactic⟩

/-- An element is typed if its attributes and its content are. -/
theorem element_typed {p : Position} {name : Node} {attributes children : List Node}
    {selfClosing : Bool} {offset : Option Nat} (named : name.Typed)
    (tag : ∀ m ∈ attributes, m.isSyntax = true ∧ m.Typed)
    (content : ∀ m ∈ children, m.isSyntax = true ∧ m.Typed)
    : (Node.element p name attributes children selfClosing offset).Typed := by
  have both : ∀ m ∈ attributes ++ children, m.isSyntax = true ∧ m.Typed := by
    intro m member
    rcases List.mem_append.mp member with left | right
    · exact tag m left
    · exact content m right
  exact .element named (fun m member => (both m member).1) fun m member => (both m member).2

theorem twoTags_typed (smaller : n.SmallerTyped source) (element : n.kind = "jsx_element")
    : n.GivesTyped source := by
  intro exported
  have content := content_typed smaller.each
  by_cases nameless : ∀ tag, n.field? "open_tag" = some tag → tag.field? "name" = none
  · rw [toAst_of_nameless source exported element nameless]
    exact ⟨rfl, .group (fun m member => (content m member).1) fun m member => (content m member).2⟩
  · push Not at nameless
    obtain ⟨tag, opens, name⟩ := nameless
    obtain ⟨name, named⟩ := Option.ne_none_iff_exists'.mp name
    rw [toAst_of_name source exported element opens named]
    exact ⟨rfl, element_typed (toTagName_typed name)
      (attributes_typed (smaller.child (List.mem_of_find?_eq_some opens))) content⟩

/-- Every node gives typed syntax, by induction on size and cases on the construct. -/
theorem givesTyped (n : Cst) : n.GivesTyped source := by
  induction n using sizeInduction with
  | step n smaller =>
      have smaller : n.SmallerTyped source := smaller
      by_cases element : n.kind = "jsx_element"
      · exact twoTags_typed smaller element
      intro exported
      have each := smaller.each
      have field := field_typed each
      have first := first_typed each
      cases n with
      | node kind field' named start stop children =>
          cases construct : Construct.ofKind kind with
          | element => exact absurd (kind_of_construct construct) element
          | name | string | jsxText =>
              simp only [toAst, construct]
              exact ⟨rfl, .leaf trivial⟩
          | importStatement =>
              simp only [toAst, construct]
              exact ⟨rfl, toImport_typed _⟩
          | objectPattern =>
              simp only [toAst, construct]
              exact ⟨rfl, objectPattern_typed _ _⟩
          | variableDeclaration =>
              simp only [toAst, construct]
              exact ⟨rfl, declarators_typed each _ _⟩
          | declarator =>
              simp only [toAst, construct]
              exact ⟨rfl, .declarator (field "name") (field "value")⟩
          | conditional =>
              simp only [toAst, construct]
              exact ⟨rfl, .conditional (field _) (field _) (field _)⟩
          | functionStatement | arrow | method | member =>
              simp only [toAst, construct]
              exact ⟨rfl, .wrap _ (field _)⟩
          | returnStatement | jsxExpression =>
              simp only [toAst, construct]
              exact ⟨rfl, .wrap _ first⟩
          | classStatement =>
              simp only [toAst, construct]
              exact ⟨rfl, members_typed smaller _ _⟩
          | classExpression =>
              cases exported with
              | true =>
                  simp only [toAst, construct]
                  exact ⟨rfl, members_typed smaller _ _⟩
              | false =>
                  simp only [toAst, construct]
                  exact ⟨rfl, group_typed each _ _ _ fun _ syntactic => syntactic⟩
          | block | other =>
              simp only [toAst, construct]
              exact ⟨rfl, group_typed each _ _ _ fun _ syntactic => syntactic⟩
          | selfClosingElement =>
              simp only [toAst, construct]
              exact ⟨rfl, element_typed (typed_getD fun name _ => toTagName_typed name)
                (attributes_typed smaller) (List.forall_mem_nil _)⟩
          | parentheses =>
              simp only [toAst, construct]
              split
              · next single => exact ⟨isSyntax_firstToAst each single, first⟩
              · exact ⟨rfl, group_typed each _ _ _ fun _ syntactic => syntactic⟩

/-- All places of a program that was made of a concrete tree are typed. -/
theorem toProgram_typed (filename : String) (source : List UInt8) (root : Cst)
    : ∀ place ∈ (root.toProgram filename source).walk, place.node.WellTyped := by
  have typed : (root.toProgram filename source).toNode.Typed :=
    group_typed (fun c _ => givesTyped c) (root.kind == exportKind) _ _ fun _ syntactic => syntactic
  rw [Node.Typed, ← Program.map_node_walk] at typed
  exact List.forall_mem_map.mp typed

end Cst
end JsxProvenance
