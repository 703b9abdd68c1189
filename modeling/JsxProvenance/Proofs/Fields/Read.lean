import JsxProvenance.Proofs.Tree.Walk

/-! Nodes as records that are read field by field. A field that a node does not have cannot be read,
so whatever is written with these reads says before each of them which form the node has, or fails.
-/

namespace JsxProvenance.Ast

/-- A field that was looked for in something that does not have it. -/
structure Missing where
  found : String
  field : String
  deriving DecidableEq, Repr, Inhabited

/-- The text of the failure. -/
def Missing.message (m : Missing) : String :=
  "'" ++ m.found ++ "' object has no attribute '" ++ m.field ++ "'"

/-- What a field holds. A part is known by the step that leads to it. -/
inductive Content where
  | text (text? : Option String)
  | flag (set : Bool)
  | number (n? : Option Nat)
  | part (step : Step) (n : Node)
  | parts (listed : List (Step × Node))
  deriving Repr, Inhabited

/-- The parts among what a field holds. -/
def Content.slots : Content → List (Step × Node)
  | part step n => [(step, n)]
  | parts listed => listed
  | _ => []

def Leaf.fields : Leaf → List (String × Content)
  | identifier name => [("name", .text name)]
  | stringLiteral value => [("value", .text value)]
  | importSpecifier kind imported localName =>
      [("kind", .text kind), ("imported", .text imported), ("local", .text localName)]
  | patternProperty key value => [("key", .text key), ("value", .text value)]
  | jsxText value => [("value", .text value)]
  | jsxAttribute name value inserted =>
      [("name", .text name), ("value", .text value), ("inserted", .flag inserted)]
  | jsxIdentifier name => [("name", .text name)]
  | jsxNamespacedName space name => [("namespace", .text space), ("name", .text name)]

def Wrapper.fields (part : Content) : Wrapper → List (String × Content)
  | functionDeclaration name => [("name", .text name), ("body", part)]
  | arrowFunction => [("body", part)]
  | methodDefinition name => [("name", .text name), ("body", part)]
  | returnStatement => [("argument", part)]
  | memberExpression property => [("object", part), ("property", .text property)]
  | jsxExpressionContainer => [("expression", part)]
  | jsxMemberExpression property => [("object", part), ("property", .text property)]

def Group.fields (parts : Content) : Group → List (String × Content)
  | program filename => [("body", parts), ("filename", .text filename)]
  | importDeclaration source => [("source", .text source), ("specifiers", parts)]
  | variableDeclaration kind => [("kind", .text kind), ("declarators", parts)]
  | objectPattern => [("properties", parts)]
  | classDeclaration name => [("name", .text name), ("members", parts)]
  | blockStatement => [("body", parts)]
  | opaqueNode kind => [("kind", .text kind), ("children", parts)]
  | jsxFragment => [("children", parts)]

namespace Node

/-- The fields of a node in order. Nothing has none, and a plain text has none. -/
def fields (n : Node) : List (String × Content) :=
  match n with
  | absent | plain _ => []
  | leaf p form => place p ++ form.fields
  | wrap p form part => place p ++ form.fields (.part (.part 0) part)
  | declarator p binding init =>
      place p ++ [("id", .part (.part 0) binding), ("init", .part (.part 1) init)]
  | conditional p test consequent alternate =>
      place p
        ++ [("test", .part (.part 0) test), ("consequent", .part (.part 1) consequent),
          ("alternate", .part (.part 2) alternate)]
  | group p form parts => place p ++ form.fields (.parts (parts.mapIdx fun i n => (.part i, n)))
  | element p name attributes children selfClosing insertOffset =>
      place p
        ++ [("name", .part (.part 0) name),
          ("attributes", .parts (attributes.mapIdx fun i n => (.attribute i, n))),
          ("children", .parts (children.mapIdx fun i n => (.child i, n))),
          ("self_closing", .flag selfClosing), ("insert_offset", .number insertOffset)]
where
  /-- The fields that all syntax has. -/
  place (p : Position) : List (String × Content) :=
    [("line", .number p.line), ("column", .number p.column)]

/-- The parts of a node are those in its fields, in the order of the fields. -/
theorem slots_eq_fields (n : Node) : n.slots = n.fields.flatMap (·.2.slots) := by
  cases n with
  | absent | plain => rfl
  | leaf _ form => cases form <;> rfl
  | wrap _ form => cases form <;> rfl
  | declarator => rfl
  | conditional => rfl
  | group _ form => cases form <;> simp [slots, fields, fields.place, Group.fields, Content.slots]
  | element => simp [slots, fields, fields.place, Content.slots]

-----------------------------------------------------------------------------------------
-- Reading
-----------------------------------------------------------------------------------------

/-- What a field of a node holds, if it holds something of the wanted sort. -/
def read {α : Type} (sort : Content → Option α) (n : Node) (field : String) : Except Missing α :=
  match (n.fields.lookup field).bind sort with
  | some a => .ok a
  | none => .error ⟨n.typeName, field⟩

/-- An optional text. -/
def readText? : Node → String → Except Missing (Option String) :=
  read fun
    | .text text? => some text?
    | _ => none

/-- A text. -/
def readText : Node → String → Except Missing String :=
  read fun
    | .text text? => text?
    | _ => none

/-- A number. -/
def readNumber : Node → String → Except Missing Nat :=
  read fun
    | .number n? => n?
    | _ => none

/-- An optional number. -/
def readNumber? : Node → String → Except Missing (Option Nat) :=
  read fun
    | .number n? => some n?
    | _ => none

/-- A flag. -/
def readFlag : Node → String → Except Missing Bool :=
  read fun
    | .flag set => some set
    | _ => none

/-- A part, with the step that leads to it. -/
def readPart : Node → String → Except Missing (Step × Node) :=
  read fun
    | .part step n => some (step, n)
    | _ => none

/-- A list of parts, with the steps that lead to them. -/
def readParts : Node → String → Except Missing (List (Step × Node)) :=
  read fun
    | .parts listed => some listed
    | _ => none

/-- The node in a field. -/
def readNode (n : Node) (field : String) : Except Missing Node :=
  (n.readPart field).map (·.2)

/-- The nodes in a field. -/
def readNodes (n : Node) (field : String) : Except Missing (List Node) :=
  (n.readParts field).map fun listed => listed.map (·.2)

theorem mem_fields_of_read {α : Type} {sort : Content → Option α} {n : Node} {field : String} {a : α}
    (given : n.read sort field = .ok a)
    : ∃ content, (field, content) ∈ n.fields ∧ sort content = some a := by
  unfold read at given
  split at given
  · next found =>
      obtain ⟨content, looked, sorted⟩ := Option.bind_eq_some_iff.mp found
      obtain ⟨before, after, same, _⟩ := List.lookup_eq_some_iff.mp looked
      refine ⟨content, ?_, sorted.trans (congrArg some (Except.ok.inj given))⟩
      rw [same]
      exact List.mem_append_right _ List.mem_cons_self
  · cases given

/-- What a field holds are parts of the node. -/
theorem slots_subset_of_field {n : Node} {field : String} {content : Content}
    (listed : (field, content) ∈ n.fields)
    : content.slots ⊆ n.slots := by
  intro slot member
  rw [slots_eq_fields]
  exact List.mem_flatMap.mpr ⟨_, listed, member⟩

theorem size_lt_of_readNode {n part : Node} {field : String}
    (given : n.readNode field = .ok part)
    : part.size < n.size := by
  cases found : n.readPart field with
  | error missing =>
      rw [readNode, found] at given
      cases given
  | ok slot =>
      rw [readNode, found] at given
      obtain rfl : slot.2 = part := Except.ok.inj given
      obtain ⟨content, listed, sorted⟩ := mem_fields_of_read found
      cases content with
      | part step n =>
          obtain rfl := Option.some.inj sorted
          exact size_lt_of_mem_slots (slots_subset_of_field listed (List.mem_singleton_self _))
      | _ => cases sorted

end Node
end JsxProvenance.Ast
