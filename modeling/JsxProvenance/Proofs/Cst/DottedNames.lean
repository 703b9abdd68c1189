import JsxProvenance.Ast.TagName
import JsxProvenance.Proofs.Cst.Readers
import JsxProvenance.Proofs.Text.Split

/-! Dotted tag names. A dotted node joins an object and a property, and the object may be dotted
again, so a name is an innermost object with properties behind it. Reading such a node and showing
its name both go down to the innermost object, and the name has one segment for each leaf.
-/

namespace JsxProvenance.Cst

open Ast

-----------------------------------------------------------------------------------------
-- Dotted nodes
-----------------------------------------------------------------------------------------

/-- A dotted node joins an object and a property. It has both as fields, or else it has just the two
of them as parts.
-/
inductive Joins (n object property : Cst) : Prop where
  | byField (dotted : n.kind ∈ dottedKinds) (front : n.field? "object" = some object)
      (back : n.field? "property" = some property)
  | byPart (dotted : n.kind ∈ dottedKinds)
      (missing : n.field? "object" = none ∨ n.field? "property" = none)
      (two : n.parts = [object, property])

/-- A node is an innermost object with properties behind it, of which each is a leaf. -/
inductive DottedFrom (inner : Cst) : Cst → List Cst → Prop where
  | bare : DottedFrom inner inner []
  | dot {n object property : Cst} {properties : List Cst} (joins : n.Joins object property)
      (leaf : property.kind ∈ nameKinds) (before : DottedFrom inner object properties)
      : DottedFrom inner n (properties ++ [property])

/-- A node is a dotted name of some leaves, of which the first is the innermost object. -/
def DottedName (n : Cst) (leaves : List Cst) : Prop :=
  ∃ inner properties,
    leaves = inner :: properties ∧ inner.kind ∈ nameKinds ∧ DottedFrom inner n properties

/-- The object of a node stands in front of its property. -/
def ObjectFirst (n : Cst) : Prop :=
  ∀ object ∈ n.field? "object", ∀ property ∈ n.field? "property", object.stop ≤ property.start

instance (n : Cst) : Decidable n.ObjectFirst :=
  inferInstanceAs (Decidable (∀ _ ∈ _, ∀ _ ∈ _, _))

variable {n inner object property : Cst} {properties leaves : List Cst}

theorem Joins.dotted (joins : n.Joins object property) : n.kind ∈ dottedKinds := by
  cases joins with
  | byField dotted => exact dotted
  | byPart dotted => exact dotted

theorem Joins.children (joins : n.Joins object property)
    : object ∈ n.children ∧ property ∈ n.children := by
  cases joins with
  | byField _ front back => exact ⟨List.mem_of_find?_eq_some front, List.mem_of_find?_eq_some back⟩
  | byPart _ _ two =>
      have among : n.parts ⊆ n.children := List.filter_subset_self _
      rw [two] at among
      exact ⟨among (by simp), among (by simp)⟩

/-- A dotted kind is none of the other kinds of tag names. -/
theorem not_name_of_dotted {kind : String} (dotted : kind ∈ dottedKinds)
    : kind ∉ nameKinds ∧ kind ≠ "jsx_namespace_name" := by
  have all : ∀ kind ∈ dottedKinds, kind ∉ nameKinds ∧ kind ≠ "jsx_namespace_name" := by
    decide
  exact all kind dotted

-----------------------------------------------------------------------------------------
-- The name that is shown
-----------------------------------------------------------------------------------------

section

variable (source : List UInt8)

/-- Both ways to join give the tag name of the object with the property behind it. -/
theorem Joins.toTagName_eq (joins : n.Joins object property)
    : toTagName source n
      = .wrap (n.position source) (.jsxMemberExpression (property.text source))
          (toTagName source object) := by
  obtain ⟨plain, spaced⟩ := not_name_of_dotted joins.dotted
  rw [toTagName_of_dots source plain spaced joins.dotted]
  cases joins with
  | byField _ front back => rw [front, back]
  | byPart _ missing two =>
      rw [two]
      rcases missing with front | back
      · rw [front]
      · rw [back]
        cases n.field? "object" <;> rfl

/-- The name before a dot has the name of the innermost object first and then the properties, by
induction along the dots.
-/
theorem DottedFrom.objectName_eq (dotted : DottedFrom inner n properties)
    : (toTagName source n).objectName
      = ".".intercalate ((toTagName source inner).objectName :: properties.map (text source)) := by
  induction dotted with
  | bare => rw [List.map_nil, String.intercalate_singleton]
  | dot joins _ _ ih =>
      rw [joins.toTagName_eq, Node.objectName, ih, List.map_append, ← List.cons_append,
        List.map_singleton,
        String.intercalate_append_of_ne_nil (List.cons_ne_nil _ _) (List.cons_ne_nil _ _),
        String.intercalate_singleton]

/-- A name with a dot is shown the same on its own as before another dot. -/
theorem DottedFrom.tagName_eq (dotted : DottedFrom inner n properties) (joined : properties ≠ [])
    : (toTagName source n).tagName = (toTagName source n).objectName := by
  cases dotted with
  | bare => exact absurd rfl joined
  | dot joins =>
      rw [joins.toTagName_eq]
      rfl

/-- The name of a dotted name has a segment for each leaf, whatever the number of dots is. -/
theorem DottedName.tagName_eq (named : n.DottedName leaves)
    : (toTagName source n).tagName = ".".intercalate (leaves.map (text source)) := by
  obtain ⟨inner, properties, rfl, leaf, dotted⟩ := named
  have whole := dotted.objectName_eq source
  have innermost := toTagName_of_name source leaf
  cases dotted with
  | bare =>
      rw [innermost, List.map_singleton, String.intercalate_singleton]
      rfl
  | dot joins last before =>
      rw [(DottedFrom.dot joins last before).tagName_eq source (by simp), whole, innermost]
      rfl

end

-----------------------------------------------------------------------------------------
-- The order of the leaves
-----------------------------------------------------------------------------------------

theorem DottedFrom.mem_nodes (dotted : DottedFrom inner n properties) {leaf : Cst}
    (member : leaf ∈ inner :: properties)
    : leaf ∈ n.nodes := by
  induction dotted with
  | bare => exact List.mem_singleton.mp member ▸ mem_nodes_self inner
  | dot joins _ _ ih =>
      obtain ⟨front, back⟩ := joins.children
      rw [← List.cons_append, List.mem_append, List.mem_singleton] at member
      rcases member with earlier | rfl
      · exact mem_nodes_of_child front (ih earlier)
      · exact mem_nodes_of_child back (mem_nodes_self _)

/-- In a node that lies well the object ends before the property starts. -/
theorem Joins.ordered (joins : n.Joins object property) (laid : n.Laid false)
    (first : n.ObjectFirst)
    : object.stop ≤ property.start := by
  cases joins with
  | byField _ front back => exact first object front property back
  | byPart _ _ two =>
      have ordered := laid.here.ordered.filter isStructural
      rw [show n.children.filter isStructural = [object, property] from two] at ordered
      exact List.rel_of_pairwise_cons ordered (List.mem_singleton_self property)

/-- The leaves of a name that lies well follow one another in the source, by induction along the
dots: all leaves of an object lie within it.
-/
theorem DottedFrom.ordered (dotted : DottedFrom inner n properties) (laid : n.Laid false)
    (first : ∀ m ∈ n.nodes, m.ObjectFirst)
    : (inner :: properties).Pairwise fun earlier later => earlier.stop ≤ later.start := by
  induction dotted with
  | bare => exact List.pairwise_singleton _ _
  | @dot n object property properties joins _ before ih =>
      have front := joins.children.1
      have below := ih (Laid.child laid front) fun m inside =>
        first m (mem_nodes_of_child front inside)
      have apart := joins.ordered laid (first n (mem_nodes_self n))
      rw [← List.cons_append, List.pairwise_append]
      refine ⟨below, List.pairwise_singleton _ _, ?_⟩
      intro leaf earlier last same
      obtain rfl := List.mem_singleton.mp same
      have inside := Laid.range (Laid.child laid front) (before.mem_nodes earlier)
      omega

-----------------------------------------------------------------------------------------
-- Names and leaves
-----------------------------------------------------------------------------------------

/-- Texts without dots can be read off from the text that joins them. -/
theorem intercalate_dots_inj {first second : List String} (nonempty : first ≠ [])
    (nonempty' : second ≠ [])
    (plain : ∀ s ∈ first, '.' ∉ s.toList) (proper : ∀ s ∈ second, '.' ∉ s.toList)
    : ".".intercalate first = ".".intercalate second ↔ first = second := by
  have parts {segments : List String} (nonempty : segments ≠ [])
      (plain : ∀ s ∈ segments, '.' ∉ s.toList)
      : (".".intercalate segments).toList.splitOn '.' = segments.map String.toList := by
    rw [String.toList_intercalate]
    refine List.splitOn_intercalate '.' ?_ (mt List.map_eq_nil_iff.mp nonempty)
    exact List.forall_mem_map.mpr plain
  refine ⟨fun same => ?_, congrArg _⟩
  have split := (parts nonempty plain).symm.trans (same ▸ parts nonempty' proper)
  exact List.map_injective_iff.mpr (fun _ _ => String.toList_inj.mp) split

theorem DottedName.map_ne_nil (named : n.DottedName leaves) (source : List UInt8)
    : leaves.map (text source) ≠ [] := by
  obtain ⟨inner, properties, rfl, _⟩ := named
  exact List.cons_ne_nil _ _

/-- Dotted names are kept at any depth. The name that is shown for a dotted name has the texts of its
leaves, with a dot between any two, from the innermost object on; this is the order of the source
where each object stands in front of its property. Names whose leaves have no dots are shown as the
same text just if they have the same leaves. If the innermost object gives no name, or one with a
namespace, it is shown as unknown, and the properties behind it are kept.
-/
theorem tagName_dotted
    : (∀ source n leaves,
        DottedName n leaves
        → (toTagName source n).tagName = ".".intercalate (leaves.map (text source))
          ∧ (n.Laid false
            → (∀ m ∈ n.nodes, m.ObjectFirst)
            → leaves.Pairwise fun earlier later => earlier.stop ≤ later.start))
      ∧ (∀ source n leaves source' n' leaves',
          DottedName n leaves
          → DottedName n' leaves'
          → (∀ leaf ∈ leaves, '.' ∉ (leaf.text source).toList)
          → (∀ leaf ∈ leaves', '.' ∉ (leaf.text source').toList)
          → ((toTagName source n).tagName = (toTagName source' n').tagName
            ↔ leaves.map (text source) = leaves'.map (text source')))
      ∧ ∀ source n inner properties,
          DottedFrom inner n properties
          → properties ≠ []
          → (toTagName source inner = .absent
            ∨ ∃ position space name,
                toTagName source inner = .leaf position (.jsxNamespacedName space name))
          → (toTagName source n).tagName
            = ".".intercalate ("unknown" :: properties.map (text source)) := by
  refine ⟨?_, ?_, ?_⟩
  · intro source n leaves named
    refine ⟨named.tagName_eq source, ?_⟩
    obtain ⟨inner, properties, rfl, _, dotted⟩ := named
    exact dotted.ordered
  · intro source n leaves source' n' leaves' named named' plain plain'
    rw [named.tagName_eq source, named'.tagName_eq source']
    exact intercalate_dots_inj (named.map_ne_nil source) (named'.map_ne_nil source')
      (List.forall_mem_map.mpr plain) (List.forall_mem_map.mpr plain')
  · intro source n inner properties dotted joined given
    rw [dotted.tagName_eq source joined, dotted.objectName_eq source]
    rcases given with nothing | ⟨position, space, name, spaced⟩
    · rw [nothing]
      rfl
    · rw [spaced]
      rfl

/-- The first leaf of `Ui./*c*/Tab.Row`. -/
def rowSpace (field : Option String) : Cst :=
  .node "identifier" field true 0 2 []

/-- The second leaf. -/
def rowGroup : Cst :=
  .node "property_identifier" none true 8 11 []

/-- The third leaf. -/
def rowLast : Cst :=
  .node "property_identifier" (some "property") true 12 15 []

/-- The object of the name has two parts without fields, and a comment between them. -/
def rowObject : Cst :=
  .node "nested_identifier" (some "object") true 0 11
    [rowSpace none, .node "." none false 2 3 [], .node "comment" none true 3 8 [], rowGroup]

/-- An object with a namespace. -/
def spacedObject : Cst :=
  .node "jsx_namespace_name" (some "object") true 0 11 [rowSpace none, rowGroup]

/-- The name with its object, or with another one before its last property. -/
def rowName (object : Cst) : Cst :=
  .node "member_expression" (some "name") true 0 15 [object, .node "." none false 11 12 [], rowLast]

/-- The text of the name. -/
def rowText : List UInt8 :=
  Utf8.bytes "Ui./*c*/Tab.Row"

/-- The name is shown with its three leaves, and not as the name without the second one. A namespace
in front of its last property is not shown.
-/
theorem tagName_dotted_row
    : (toTagName rowText (rowName rowObject)).tagName = "Ui.Tab.Row"
      ∧ [rowSpace none, rowGroup, rowLast].Pairwise (fun earlier later =>
        earlier.stop ≤ later.start)
      ∧ (toTagName rowText (rowName rowObject)).tagName
        ≠ (toTagName rowText (rowName (rowSpace (some "object")))).tagName
      ∧ (toTagName rowText (rowName spacedObject)).tagName = "unknown.Row" := by
  obtain ⟨shown, apart, hidden⟩ := tagName_dotted
  have last : rowLast.kind ∈ nameKinds := by
    decide
  have inner : DottedFrom (rowSpace none) rowObject [rowGroup] :=
    .dot (.byPart (by decide) (Or.inl rfl) rfl) (by decide) .bare
  have outer {object inner : Cst} {properties : List Cst} (dotted : DottedFrom inner object properties)
      (filled : (rowName object).field? "object" = some object)
      (other : (rowName object).field? "property" = some rowLast)
      : DottedFrom inner (rowName object) (properties ++ [rowLast]) :=
    .dot (.byField List.mem_cons_self filled other) last dotted
  have long : DottedName (rowName rowObject) [rowSpace none, rowGroup, rowLast] :=
    ⟨rowSpace none, _, rfl, by decide, outer inner rfl rfl⟩
  have short
      : DottedName (rowName (rowSpace (some "object"))) [rowSpace (some "object"), rowLast] :=
    ⟨rowSpace (some "object"), _, rfl, by decide, outer .bare rfl rfl⟩
  obtain ⟨name, ordered⟩ := shown rowText _ _ long
  refine ⟨?_, ordered (by decide) (by decide), ?_, ?_⟩
  · rw [name]
    decide
  · intro same
    have leaves := (apart rowText _ _ rowText _ _ long short (by decide) (by decide)).mp same
    exact absurd leaves (by decide)
  · rw [hidden rowText _ spacedObject _ (outer .bare rfl rfl) (List.cons_ne_nil _ _)
      (Or.inr ⟨_, _, _, rfl⟩)]
    decide

end JsxProvenance.Cst
