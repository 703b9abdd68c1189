import Mathlib.Data.List.Nodup
import JsxProvenance.Proofs.Cst.Conversion

/-! Where new attributes are written. The offset of an element lies inside its own tag, after the
name and all attributes, and between the tokens of the file; and no two elements share one. Both
follow from the nesting of ranges: what one child gives lies inside the child, and children lie
apart.
-/

namespace JsxProvenance.Cst

open Ast

-----------------------------------------------------------------------------------------
-- The offset of one tag
-----------------------------------------------------------------------------------------

/-- The largest of some offsets and their start is one of them and bounds all, by induction over
the parts.
-/
theorem foldl_max_spec (parts : List Cst) (start : Nat)
    : ∃ offset,
        parts.foldl (fun offset n => some (max (offset.getD 0) n.stop)) (some start) = some offset
        ∧ (offset = start ∨ ∃ part ∈ parts, offset = part.stop)
        ∧ start ≤ offset
        ∧ ∀ part ∈ parts, part.stop ≤ offset := by
  induction parts generalizing start with
  | nil => exact ⟨start, rfl, Or.inl rfl, Nat.le_refl _, nofun⟩
  | cons n rest ih =>
      obtain ⟨offset, folded, chosen, above, all⟩ := ih (max start n.stop)
      refine ⟨offset, folded, ?_, by omega, ?_⟩
      · rcases chosen with rfl | ⟨part, member, rfl⟩
        · rcases Nat.le_total start n.stop with small | large
          · exact Or.inr ⟨n, List.mem_cons_self, Nat.max_eq_right small⟩
          · exact Or.inl (Nat.max_eq_left large)
        · exact Or.inr ⟨part, List.mem_cons_of_mem n member, rfl⟩
      · intro part member
        rcases List.mem_cons.mp member with rfl | later
        · omega
        · exact all part later

/-- The offset of a tag with a name is the end of the name, of an attribute or of a spread, and lies
behind all of them.
-/
theorem insertOffset_spec {tag : Cst} (named : (tag.field? "name").isSome = true)
    : ∃ offset,
        tag.insertOffset = some offset
        ∧ (∃ c ∈ tag.children,
            (c.isStructural = true ∨ c.field = some "name") ∧ offset = c.stop)
        ∧ (∀ name, tag.field? "name" = some name → name.stop ≤ offset)
        ∧ ∀ part ∈ tag.parts, isTagAttribute part = true → part.stop ≤ offset := by
  obtain ⟨name, named⟩ := Option.isSome_iff_exists.mp named
  obtain ⟨offset, folded, chosen, above, all⟩ :=
    foldl_max_spec (tag.parts.filter isTagAttribute) name.stop
  refine ⟨offset, by rw [insertOffset, named]; exact folded, ?_, ?_, ?_⟩
  · rcases chosen with rfl | ⟨part, member, rfl⟩
    · have filled := List.find?_some named
      exact ⟨name, List.mem_of_find?_eq_some named, Or.inr (eq_of_beq filled), rfl⟩
    · obtain ⟨child, structural⟩ := List.mem_filter.mp (List.mem_of_mem_filter member)
      exact ⟨part, child, Or.inl structural, rfl⟩
  · intro other same
    cases named.symm.trans same
    exact above
  · exact fun part member holds => all part (List.mem_filter.mpr ⟨member, holds⟩)

-----------------------------------------------------------------------------------------
-- Elements that land well
-----------------------------------------------------------------------------------------

/-- An element is made from a tag: its place, its name, its attributes and its offset are those of
the tag.
-/
def MakesElement (source : List UInt8) (tag : Cst) (e : Node) : Prop :=
  ∃ children selfClosing,
    e = .element (tag.position source) (((tag.field? "name").map (toTagName source)).getD .absent)
      (attributesToAst source tag.children) children selfClosing tag.insertOffset

/-- An opening tag with a name makes the element. -/
theorem makesElement_of_name (source : List UInt8) (exported : Bool) {n tag name : Cst}
    (element : n.kind = "jsx_element") (opens : n.field? "open_tag" = some tag)
    (named : tag.field? "name" = some name)
    : tag.MakesElement source (toAst source exported n) := by
  refine ⟨contentToAst source n.children, false, ?_⟩
  rw [toAst_of_name source exported element opens named, named]
  rfl

/-- What nothing is written into: a node without children, and an attribute if that is asked. -/
def IsToken (strict : Prop) (n : Cst) : Prop :=
  n.children = [] ∨ strict ∧ n.kind = "jsx_attribute"

/-- The offset of an element lies inside its tag, behind the name, the attributes and the spreads
of the tag, and inside no token of the tree.
-/
structure Lands (strict : Prop) (source : List UInt8) (n : Cst) (e : Node) (offset : Nat)
    : Prop where
  written : e.insertOffset? = some offset
  tag
    : ∃ tag ∈ n.nodes,
        tag.MakesElement source e
        ∧ tag.start < offset
        ∧ offset < tag.stop
        ∧ (∀ name, tag.field? "name" = some name → name.stop ≤ offset)
        ∧ ∀ part ∈ tag.parts, isTagAttribute part = true → part.stop ≤ offset
  between : ∀ m ∈ n.nodes, m.IsToken strict → ¬ (m.start < offset ∧ offset < m.stop)

/-- Elements land inside the range of a node, and at different offsets. -/
structure LandApart (strict : Prop) (source : List UInt8) (n : Cst) (elements : List Node)
    : Prop where
  lands
    : ∀ e ∈ elements,
        ∃ offset, Lands strict source n e offset ∧ n.start < offset ∧ offset < n.stop
  apart : (elements.map Node.insertOffset?).Nodup

/-- Two nodes share no byte. -/
def Apart (c d : Cst) : Prop :=
  c.stop ≤ d.start ∨ d.stop ≤ c.start

instance : Std.Symm Apart :=
  ⟨fun _ _ => Or.symm⟩

variable {strict : Prop} {source : List UInt8} {opening : Bool} {n : Cst}

theorem LandApart.nil : LandApart strict source n [] :=
  ⟨nofun, List.nodup_nil⟩

/-- Different children lie apart. -/
theorem Shaped.apart (shaped : n.Shaped opening) {c d : Cst} (first : c ∈ n.children)
    (second : d ∈ n.children) (different : c ≠ d)
    : c.Apart d := by
  have apart : n.children.Pairwise Apart := shaped.ordered.imp fun before => Or.inl before
  exact apart.forall first second different

theorem Shaped.apart_filter (shaped : n.Shaped opening) (keep : Cst → Bool)
    : (n.children.filter keep).Pairwise Apart :=
  (shaped.ordered.imp fun before => Or.inl before).filter keep

/-- An offset in the range of a child that is inside no token of the child is inside no token of
the whole. Witness: the other children lie apart from the child.
-/
theorem Laid.between (laid : n.Laid opening) (plain : strict → n.kind ≠ "jsx_attribute") {c : Cst}
    (child : c ∈ n.children) {offset : Nat} (range : c.start ≤ offset ∧ offset ≤ c.stop)
    (below : ∀ m ∈ c.nodes, m.IsToken strict → ¬ (m.start < offset ∧ offset < m.stop))
    : ∀ m ∈ n.nodes, m.IsToken strict → ¬ (m.start < offset ∧ offset < m.stop) := by
  intro m inside token
  rcases mem_nodes_iff.mp inside with rfl | ⟨d, other, lower⟩
  · rcases token with childless | ⟨asked, kind⟩
    · rw [childless] at child
      cases child
    · exact absurd kind (plain asked)
  · by_cases same : c = d
    · exact below m (same ▸ lower) token
    · have outer := (Laid.child laid other).range lower
      rcases laid.here.apart child other same with before | after <;> omega

/-- Elements that land in children, each child once, land in the whole. -/
theorem LandApart.gather (laid : n.Laid opening) (plain : strict → n.kind ≠ "jsx_attribute")
    {given : List (Cst × List Node)} (within : ∀ x ∈ given, x.1 ∈ n.children)
    (apart : given.Pairwise fun x y => x.1.Apart y.1)
    (each : ∀ x ∈ given, LandApart strict source x.1 x.2)
    : LandApart strict source n (given.flatMap (·.2)) where
  lands := by
    intro e member
    obtain ⟨x, chosen, inside⟩ := List.mem_flatMap.mp member
    obtain ⟨offset, land, lower, upper⟩ := (each x chosen).lands e inside
    have child := within x chosen
    obtain ⟨tag, below, made⟩ := land.tag
    have outer := laid.here.nested x.1 child
    refine ⟨offset, ⟨land.written, ⟨tag, mem_nodes_of_child child below, made⟩, ?_⟩, by omega,
      by omega⟩
    exact laid.between plain child ⟨by omega, by omega⟩ land.between
  apart := by
    rw [List.map_flatMap, List.nodup_flatMap]
    refine ⟨fun x chosen => (each x chosen).apart, ?_⟩
    refine apart.imp_of_mem fun {x y} first second away => ?_
    intro off left right
    obtain ⟨e, inFirst, rfl⟩ := List.mem_map.mp left
    obtain ⟨f, inSecond, same⟩ := List.mem_map.mp right
    obtain ⟨o, landE, lowerE, upperE⟩ := (each x first).lands e inFirst
    obtain ⟨p, landF, lowerF, upperF⟩ := (each y second).lands f inSecond
    rw [landE.written, landF.written] at same
    cases same
    rcases away with before | after <;> omega

/-- Elements that land in some of the children land in the whole. -/
theorem LandApart.of_children (laid : n.Laid opening) (plain : strict → n.kind ≠ "jsx_attribute")
    {chosen : List Cst} (within : ∀ c ∈ chosen, c ∈ n.children) (apart : chosen.Pairwise Apart)
    {elements : Cst → List Node}
    (each : ∀ c ∈ chosen, LandApart strict source c (elements c))
    : LandApart strict source n (chosen.flatMap elements) := by
  have gathered
      : LandApart strict source n ((chosen.map fun c => (c, elements c)).flatMap (·.2)) := by
    apply gather laid plain
    · simpa using within
    · simpa [List.pairwise_map] using apart
    · simpa using each
  rwa [List.flatMap_map] at gathered

/-- The element of a tag lands in the tag, apart from the elements in the spreads of the tag. -/
theorem LandApart.of_tag (laid : n.Laid opening) (isTag : n.IsTag opening)
    (plain : strict → n.kind ≠ "jsx_attribute") {own : Node} (made : n.MakesElement source own)
    {elements : Cst → List Node}
    (each : ∀ c ∈ n.children.filter isSpread, LandApart strict source c (elements c))
    : LandApart strict source n (own :: (n.children.filter isSpread).flatMap elements) := by
  obtain ⟨offset, written, ⟨c, child, relevant, rfl⟩, named, parts⟩ :=
    insertOffset_spec (laid.here.named isTag)
  have given : own.insertOffset? = some c.stop := by
    obtain ⟨children, selfClosing, rfl⟩ := made
    exact written
  have margins := laid.here.margins isTag c child relevant
  have proper := (Laid.child laid child).here.range
  have spreads := of_children laid plain (fun d member => List.mem_of_mem_filter member)
    (laid.here.apart_filter isSpread) each
  have ahead (e : Node) (member : e ∈ (n.children.filter isSpread).flatMap elements)
      : e.insertOffset? ≠ some c.stop := by
    obtain ⟨d, chosen, inside⟩ := List.mem_flatMap.mp member
    obtain ⟨o, land, lower, upper⟩ := (each d chosen).lands e inside
    obtain ⟨other, spread⟩ := List.mem_filter.mp chosen
    have kinds := Bool.and_eq_true_iff.mp spread
    have behind : d.stop ≤ c.stop := by
      refine parts d (List.mem_filter.mpr ⟨other, kinds.1⟩) ?_
      rw [isTagAttribute, kinds.2, Bool.or_true]
    rw [land.written]
    intro same
    cases same
    omega
  constructor
  · intro e member
    rcases List.mem_cons.mp member with rfl | inner
    · refine ⟨c.stop, ⟨given, ⟨n, mem_nodes_self n, made, by omega, by omega, named, parts⟩, ?_⟩,
        by omega, by omega⟩
      refine laid.between plain child ⟨proper, Nat.le_refl _⟩ fun m below _ within => ?_
      have range := (Laid.child laid child).range below
      omega
    · exact spreads.lands e inner
  · rw [List.map_cons, List.nodup_cons]
    refine ⟨?_, spreads.apart⟩
    rw [given]
    intro member
    obtain ⟨e, inner, same⟩ := List.mem_map.mp member
    exact ahead e inner same

end JsxProvenance.Cst
