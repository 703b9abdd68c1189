import Mathlib.Data.List.Sort
import JsxProvenance.Proofs.Text.SourceText
import JsxProvenance.Proofs.Tree.Walk
import JsxProvenance.Splice

/-! A rendered program piece by piece. Each byte of the source is kept once and in order, and the
text of each inserted attribute is put in once, at the offset of its element. Texts come by their
offsets, those of one offset in the order of the walk, and those of one element in the order of its
attributes. What is written is read back from the pieces, so nothing else can be in it.
-/

namespace JsxProvenance

open Ast

-----------------------------------------------------------------------------------------
-- Splices by offset
-----------------------------------------------------------------------------------------

namespace Splice

/-- A splice lies no further than another. -/
def ByOffset (s t : Splice) : Prop :=
  s.offset ≤ t.offset

instance : DecidableRel ByOffset :=
  fun _ _ => inferInstanceAs (Decidable (_ ≤ _))

instance : Std.Total ByOffset where
  total s t := Nat.le_total s.offset t.offset

instance : IsTrans Splice ByOffset where
  trans _ _ _ := Nat.le_trans

theorem insertSorted_eq_orderedInsert (s : Splice) (splices : List Splice)
    : insertSorted s splices = splices.orderedInsert ByOffset s := by
  induction splices with
  | nil => rfl
  | cons t rest ih =>
      rw [insertSorted, List.orderedInsert_cons, ih]
      rfl

theorem sorted_eq_insertionSort (splices : List Splice)
    : sorted splices = splices.insertionSort ByOffset := by
  induction splices with
  | nil => rfl
  | cons s rest ih => rw [sorted, List.insertionSort_cons, insertSorted_eq_orderedInsert, ih]

theorem sorted_perm (splices : List Splice) : (sorted splices).Perm splices := by
  rw [sorted_eq_insertionSort]
  exact List.perm_insertionSort ByOffset splices

theorem pairwise_sorted (splices : List Splice) : (sorted splices).Pairwise ByOffset := by
  rw [sorted_eq_insertionSort]
  exact List.pairwise_insertionSort ByOffset splices

theorem attributeText?_eq_some {attr : Node} {text : List UInt8}
    : attributeText? attr = some text
      ↔ ∃ position name value,
          attr = .leaf position (.jsxAttribute name value true)
          ∧ text = Utf8.encode (writtenAttribute name value) := by
  constructor
  · intro written
    unfold attributeText? at written
    split at written
    · next position name value => exact ⟨position, name, value, rfl, (Option.some.inj written).symm⟩
    · cases written
  · rintro ⟨position, name, value, rfl, rfl⟩
    rfl

end Splice

-----------------------------------------------------------------------------------------
-- Insertions
-----------------------------------------------------------------------------------------

/-- The numbers of a numbered list ascend. -/
theorem pairwise_zipIdx {α : Type} (xs : List α) : xs.zipIdx.Pairwise fun x y => x.2 < y.2 := by
  have ascending : (List.range' 0 xs.length).Pairwise (· < ·) := List.pairwise_lt_range'
  rwa [← List.zipIdx_map_snd 0 xs, List.pairwise_map] at ascending

/-- A splice with the number of its element in a walk and of its attribute in the element's list. -/
structure Insertion extends Splice where
  element : Nat
  item : Nat
  deriving DecidableEq, Repr

namespace Insertion

/-- A node is an element whose offset is that of an insertion. The attribute of the number in its
list was inserted, and its written form is the text.
-/
def StandsIn (x : Insertion) (n : Node) : Prop :=
  ∃ position name attributes children selfClosing,
    n = .element position name attributes children selfClosing (some x.offset)
    ∧ ∃ place label value,
        attributes[x.item]? = some (.leaf place (.jsxAttribute label value true))
        ∧ x.text = Utf8.encode (writtenAttribute label value)

/-- An insertion is met earlier in the walk than another, or earlier among the attributes of the
same element.
-/
def Earlier (x y : Insertion) : Prop :=
  x.element < y.element ∨ x.element = y.element ∧ x.item < y.item

/-- An insertion comes before another: it has the smaller offset, or the same and is met earlier. -/
def Before (x y : Insertion) : Prop :=
  x.offset < y.offset ∨ x.offset = y.offset ∧ x.Earlier y

/-- An insertion comes no later than another. -/
def NoLater (x y : Insertion) : Prop :=
  x.offset < y.offset
  ∨ x.offset = y.offset ∧ (x.element < y.element ∨ x.element = y.element ∧ x.item ≤ y.item)

instance : DecidableRel NoLater :=
  fun _ _ => inferInstanceAs (Decidable (_ ∨ _))

instance : Std.Total NoLater where
  total x y := by
    unfold NoLater
    omega

instance : IsTrans Insertion NoLater where
  trans x y z first second := by
    unfold NoLater at *
    omega

/-- The insertions of a node that has a number in the walk. -/
def ofNode (element : Nat) : Node → List Insertion
  | .element _ _ attributes _ _ (some offset) =>
      attributes.zipIdx.filterMap fun (attr, item) =>
        (Splice.attributeText? attr).map fun text => { offset, text, element, item }
  | _ => []

/-- The insertions of a node are its splices. -/
theorem map_toSplice_ofNode (element : Nat) (n : Node)
    : (ofNode element n).map toSplice = Splice.ofNode n := by
  cases n with
  | element position name attributes children selfClosing insertOffset =>
      cases insertOffset with
      | none => rfl
      | some offset =>
          rw [ofNode, Splice.ofNode, List.map_filterMap]
          conv => rhs; rw [← List.zipIdx_map_fst 0 attributes]
          rw [List.filterMap_map, List.map_filterMap]
          refine List.filterMap_congr fun numbered _ => ?_
          rw [Option.map_map]
          rfl
  | _ => rfl

theorem mem_ofNode_iff {element : Nat} {n : Node} {x : Insertion}
    : x ∈ ofNode element n ↔ x.element = element ∧ x.StandsIn n := by
  constructor
  · intro member
    unfold ofNode at member
    split at member
    · next position name attributes children selfClosing offset =>
        obtain ⟨⟨attr, item⟩, numbered, given⟩ := List.mem_filterMap.mp member
        obtain ⟨text, written, rfl⟩ := Option.map_eq_some_iff.mp given
        obtain ⟨place, label, value, rfl, rfl⟩ := Splice.attributeText?_eq_some.mp written
        exact ⟨rfl, _, _, _, _, _, rfl, place, label, value,
          List.mem_zipIdx_iff_getElem?.mp numbered, rfl⟩
    · cases member
  · rintro ⟨rfl, position, name, attributes, children, selfClosing, rfl, inserted⟩
    obtain ⟨place, label, value, found, written⟩ := inserted
    refine List.mem_filterMap.mpr ⟨(_, x.item), List.mem_zipIdx_iff_getElem?.mpr found, ?_⟩
    exact congrArg some (by rw [← written])

/-- The insertions of a node ascend by its attributes. -/
theorem pairwise_ofNode (element : Nat) (n : Node) : (ofNode element n).Pairwise Earlier := by
  unfold ofNode
  split
  · refine List.pairwise_filterMap.mpr ((pairwise_zipIdx _).imp ?_)
    intro first second smaller x given y given'
    obtain ⟨_, _, rfl⟩ := Option.map_eq_some_iff.mp given
    obtain ⟨_, _, rfl⟩ := Option.map_eq_some_iff.mp given'
    exact Or.inr ⟨rfl, smaller⟩
  · exact List.Pairwise.nil

end Insertion

namespace Ast.Program

variable (p : Program)

/-- An insertion stands in the node that the walk meets at its number. -/
def Inserts (x : Insertion) : Prop :=
  ∃ place, p.walk[x.element]? = some place ∧ x.StandsIn place.node

/-- The insertions of a program in the order of the walk. -/
def insertions : List Insertion :=
  p.walk.zipIdx.flatMap fun (place, element) => Insertion.ofNode element place.node

/-- The insertions of a program are its splices. -/
theorem map_toSplice_insertions : p.insertions.map Insertion.toSplice = p.splices := by
  rw [insertions, List.map_flatMap, splices]
  conv => rhs; rw [← List.zipIdx_map_fst 0 p.walk]
  rw [List.flatMap_map]
  exact List.flatMap_congr fun numbered _ => Insertion.map_toSplice_ofNode numbered.2 _

theorem mem_insertions_iff {x : Insertion} : x ∈ p.insertions ↔ p.Inserts x := by
  constructor
  · intro member
    obtain ⟨⟨place, element⟩, numbered, inside⟩ := List.mem_flatMap.mp member
    obtain ⟨rfl, stands⟩ := Insertion.mem_ofNode_iff.mp inside
    exact ⟨place, List.mem_zipIdx_iff_getElem?.mp numbered, stands⟩
  · rintro ⟨place, found, stands⟩
    refine List.mem_flatMap.mpr ⟨(place, x.element), List.mem_zipIdx_iff_getElem?.mpr found, ?_⟩
    exact Insertion.mem_ofNode_iff.mpr ⟨rfl, stands⟩

theorem pairwise_insertions : p.insertions.Pairwise Insertion.Earlier := by
  refine List.pairwise_flatMap.mpr ⟨fun numbered _ => Insertion.pairwise_ofNode _ _, ?_⟩
  refine (pairwise_zipIdx p.walk).imp fun smaller x inside y inside' => Or.inl ?_
  rw [(Insertion.mem_ofNode_iff.mp inside).1, (Insertion.mem_ofNode_iff.mp inside').1]
  exact smaller

end Ast.Program

namespace Insertion

/-- An insertion that is met earlier than others is put among them as its splice is put among
theirs, by induction over them.
-/
theorem map_orderedInsert {x : Insertion} {later : List Insertion}
    (first : ∀ y ∈ later, x.Earlier y)
    : (later.orderedInsert NoLater x).map toSplice
      = Splice.insertSorted x.toSplice (later.map toSplice) := by
  induction later with
  | nil => rfl
  | cons y rest ih =>
      have earlier : x.Earlier y := first y List.mem_cons_self
      have same : NoLater x y ↔ x.offset ≤ y.offset := by
        unfold Earlier at earlier
        unfold NoLater
        omega
      rw [List.orderedInsert_cons, List.map_cons, Splice.insertSorted]
      by_cases before : x.offset ≤ y.offset
      · rw [if_pos before, if_pos (same.mpr before)]
        rfl
      · rw [if_neg before, if_neg (mt same.mp before), List.map_cons,
          ih fun z member => first z (List.mem_cons_of_mem y member)]

/-- The insertions in order. -/
def inOrder (insertions : List Insertion) : List Insertion :=
  insertions.insertionSort NoLater

theorem perm_inOrder (insertions : List Insertion) : (inOrder insertions).Perm insertions :=
  List.perm_insertionSort NoLater _

/-- Insertions that are met one after the other are put in order as their splices are, by induction
over them.
-/
theorem map_inOrder {insertions : List Insertion} (ascending : insertions.Pairwise Earlier)
    : (inOrder insertions).map toSplice = Splice.sorted (insertions.map toSplice) := by
  induction insertions with
  | nil => rfl
  | cons x rest ih =>
      obtain ⟨first, ascending⟩ := List.pairwise_cons.mp ascending
      rw [inOrder, List.insertionSort_cons, map_orderedInsert, List.map_cons, Splice.sorted,
        ← ih ascending]
      · rfl
      · intro y member
        exact first y ((List.mem_insertionSort NoLater).mp member)

/-- Insertions that are met one after the other come before one another when they are in order. -/
theorem pairwise_inOrder {insertions : List Insertion} (ascending : insertions.Pairwise Earlier)
    : (inOrder insertions).Pairwise Before := by
  have sorted : (inOrder insertions).Pairwise NoLater := List.pairwise_insertionSort NoLater _
  have apart : (inOrder insertions).Pairwise fun x y => x.Earlier y ∨ y.Earlier x := by
    apply (perm_inOrder insertions).symm.pairwise
    · exact ascending.imp Or.inl
    · exact Or.symm
  refine (sorted.and apart).imp fun both => ?_
  unfold NoLater Earlier at both
  unfold Before Earlier
  omega

end Insertion

-----------------------------------------------------------------------------------------
-- Pieces
-----------------------------------------------------------------------------------------

/-- A piece of a rendered source: a byte that was kept, or an insertion that was put in. -/
inductive Piece where
  | kept (byte : UInt8)
  | put (insertion : Insertion)
  deriving DecidableEq, Repr

namespace Piece

def bytes : Piece → List UInt8
  | kept byte => [byte]
  | put insertion => insertion.text

def kept? : Piece → Option UInt8
  | kept byte => some byte
  | put _ => none

def put? : Piece → Option Insertion
  | kept _ => none
  | put insertion => some insertion

/-- The pieces of bytes from a position on, with insertions in order. -/
def weave (position : Nat) (source : List UInt8) : List Insertion → List Piece
  | [] => source.map kept
  | x :: rest =>
      (source.take (x.offset - position)).map kept
        ++ put x :: weave x.offset (source.drop (x.offset - position)) rest

theorem flatMap_bytes_kept (source : List UInt8) : (source.map kept).flatMap bytes = source := by
  induction source with
  | nil => rfl
  | cons b rest ih => simpa [bytes] using ih

@[simp]
theorem filterMap_kept?_kept (source : List UInt8) : (source.map kept).filterMap kept? = source := by
  rw [List.filterMap_map]
  exact List.filterMap_some

@[simp]
theorem filterMap_put?_kept (source : List UInt8) : (source.map kept).filterMap put? = [] := by
  rw [List.filterMap_map]
  exact List.filterMap_none source

variable (position : Nat) (source : List UInt8) (insertions : List Insertion)

/-- The pieces write the insertions into the bytes, by induction over the insertions. -/
theorem flatMap_bytes_weave
    : (weave position source insertions).flatMap bytes
      = Splice.applySorted position source (insertions.map Insertion.toSplice) := by
  induction insertions generalizing position source with
  | nil => exact flatMap_bytes_kept source
  | cons x rest ih =>
      rw [weave, List.flatMap_append, List.flatMap_cons, flatMap_bytes_kept, ih, List.map_cons,
        Splice.applySorted, List.append_assoc]
      rfl

/-- The pieces keep each byte once and in order, by induction over the insertions. -/
theorem filterMap_kept?_weave
    : (weave position source insertions).filterMap kept? = source := by
  induction insertions generalizing position source with
  | nil => exact filterMap_kept?_kept source
  | cons x rest ih =>
      rw [weave, List.filterMap_append, filterMap_kept?_kept, List.filterMap_cons_none rfl, ih,
        List.take_append_drop]

/-- The pieces put in each insertion once and in order, by induction over the insertions. -/
theorem filterMap_put?_weave
    : (weave position source insertions).filterMap put? = insertions := by
  induction insertions generalizing position source with
  | nil => exact filterMap_put?_kept source
  | cons x rest ih =>
      rw [weave, List.filterMap_append, filterMap_put?_kept, List.nil_append]
      exact congrArg (x :: ·) (ih x.offset _)

theorem put_not_mem_kept (x : Insertion) (source : List UInt8) : put x ∉ source.map kept := by
  intro member
  obtain ⟨b, _, same⟩ := List.mem_map.mp member
  cases same

variable {position source insertions}

/-- Each insertion is put in behind the bytes up to its offset, or behind all of them, by induction
over the insertions.
-/
theorem length_kept_before (sorted : insertions.Pairwise Insertion.Before)
    (ahead : ∀ x ∈ insertions, position ≤ x.offset) {before after : List Piece} {x : Insertion}
    (split : weave position source insertions = before ++ put x :: after)
    : (before.filterMap kept?).length = min (x.offset - position) source.length := by
  induction insertions generalizing position source before with
  | nil =>
      refine absurd ?_ (put_not_mem_kept x source)
      rw [show source.map kept = _ from split]
      simp
  | cons y rest ih =>
      obtain ⟨first, sorted⟩ := List.pairwise_cons.mp sorted
      rw [weave] at split
      have here {first : List Piece} (all : first = (source.take (y.offset - position)).map kept)
          : (first.filterMap kept?).length = min (y.offset - position) source.length := by
        rw [all, filterMap_kept?_kept, List.length_take]
      rcases List.append_eq_append_iff.mp split with ⟨more, rfl, tail⟩ | ⟨more, cut, tail⟩
      · cases more with
        | nil =>
            obtain rfl := Piece.put.inj (List.cons.inj tail).1
            exact here (List.append_nil _)
        | cons z more =>
            obtain rfl := (List.cons.inj tail).1
            have inner : weave y.offset (source.drop (y.offset - position)) rest
                = more ++ put x :: after :=
              (List.cons.inj tail).2
            have later : x ∈ rest := by
              rw [← filterMap_put?_weave y.offset (source.drop (y.offset - position)) rest, inner]
              simp [put?]
            have lower (z : Insertion) (member : z ∈ rest) : y.offset ≤ z.offset := by
              have before := first z member
              unfold Insertion.Before at before
              omega
            have counted := ih sorted lower inner
            have start : position ≤ y.offset := ahead y List.mem_cons_self
            have above : y.offset ≤ x.offset := lower x later
            rw [List.filterMap_append, List.length_append, filterMap_kept?_kept,
              List.filterMap_cons_none rfl, counted, List.length_take, List.length_drop]
            omega
      · cases more with
        | nil =>
            obtain rfl := Piece.put.inj (List.cons.inj tail).1
            exact here ((List.append_nil _).symm.trans cut.symm)
        | cons z more =>
            obtain rfl := (List.cons.inj tail).1
            refine absurd ?_ (put_not_mem_kept x (source.take (y.offset - position)))
            rw [cut]
            simp

end Piece

-----------------------------------------------------------------------------------------
-- The rendered program
-----------------------------------------------------------------------------------------

/-- Whether a node is an attribute that was inserted. -/
def Ast.Node.isInserted : Node → Bool
  | .leaf _ (.jsxAttribute _ _ inserted) => inserted
  | _ => false

/-- Elements without inserted attributes have no splices. -/
theorem Splice.ofNode_eq_nil {n : Node}
    (bare : ∀ p name attrs children sc offset,
      n = .element p name attrs children sc (some offset) → ∀ a ∈ attrs, a.isInserted = false)
    : ofNode n = [] := by
  cases n with
  | element p name attrs children sc off =>
      cases off with
      | none => rfl
      | some offset =>
          have nothing : attrs.filterMap attributeText? = [] := by
            apply List.filterMap_eq_nil_iff.mpr
            intro a member
            have authored := bare p name attrs children sc offset rfl a member
            cases a with
            | leaf q form =>
                cases form with
                | jsxAttribute label value inserted =>
                    cases inserted with
                    | false => rfl
                    | true => cases authored
                | _ => rfl
            | _ => rfl
          rw [ofNode, nothing, List.map_nil]
  | _ => rfl

namespace Ast.Program

/-- A program is rendered as its source with the splices in order. -/
theorem render_eq_applySorted (p : Program)
    : p.render = Splice.applySorted 0 p.source (Splice.sorted p.splices) := by
  rw [render, renderText, SourceText.encode_decode]

theorem render_of_no_splices {p : Program} (nothing : p.splices = []) : p.render = p.source := by
  rw [render_eq_applySorted, nothing]
  rfl

/-- A program is rendered as its source if no element with an offset has an inserted attribute. -/
theorem render_of_bare {p : Program}
    (bare : ∀ place ∈ p.walk, ∀ position name attrs children sc offset,
      place.node = .element position name attrs children sc (some offset)
      → ∀ a ∈ attrs, a.isInserted = false)
    : p.render = p.source := by
  apply render_of_no_splices
  apply List.flatMap_eq_nil_iff.mpr
  intro place visited
  exact Splice.ofNode_eq_nil (bare place visited)

/-- A program is rendered as its source if nothing in its walk was inserted. Witness: the
attributes of an element are walked after it.
-/
theorem render_of_unmarked {p : Program}
    (unmarked : ∀ place ∈ p.walk, place.node.isInserted = false)
    : p.render = p.source := by
  apply render_of_bare
  intro place visited position name attrs children sc offset element a member
  obtain ⟨i, found⟩ := List.getElem?_of_mem member
  cases syntactic : a.isSyntax with
  | true =>
      refine unmarked ⟨place.address ++ [.attribute i], a⟩ (Place.child_mem_walk visited ?_)
      refine Place.mem_children_iff.mpr ⟨.attribute i, rfl, ?_, syntactic⟩
      rw [element]
      exact found
  | false =>
      cases a with
      | absent | plain => rfl
      | _ => cases syntactic

/-- The rendered program is its source with the written form of each inserted attribute of each
element with an offset put in once, behind the bytes up to the offset. What is put in comes by
offset, then by the walk, and then by the list of attributes. Where no element with an offset has
an inserted attribute the rendered program is the source. Witness: the pieces that the insertions
in order weave.
-/
theorem render_pieces (p : Program)
    : (∃ pieces : List Piece,
        p.render = pieces.flatMap Piece.bytes
        ∧ pieces.filterMap Piece.kept? = p.source
        ∧ (∀ x, x ∈ pieces.filterMap Piece.put? ↔ p.Inserts x)
        ∧ (pieces.filterMap Piece.put?).Pairwise Insertion.Before
        ∧ ∀ before x after,
            pieces = before ++ Piece.put x :: after
            → (before.filterMap Piece.kept?).length = min x.offset p.source.length)
      ∧ ((∀ place ∈ p.walk, ∀ position name attrs children sc offset,
            place.node = .element position name attrs children sc (some offset)
            → ∀ a ∈ attrs, a.isInserted = false)
          → p.render = p.source) := by
  have sorted := Insertion.pairwise_inOrder p.pairwise_insertions
  refine ⟨⟨Piece.weave 0 p.source (Insertion.inOrder p.insertions), ?_, ?_, ?_, ?_, ?_⟩, ?_⟩
  · rw [render_eq_applySorted, Piece.flatMap_bytes_weave,
      Insertion.map_inOrder p.pairwise_insertions, map_toSplice_insertions]
  · exact Piece.filterMap_kept?_weave 0 p.source _
  · intro x
    rw [Piece.filterMap_put?_weave, (Insertion.perm_inOrder p.insertions).mem_iff]
    exact p.mem_insertions_iff
  · rw [Piece.filterMap_put?_weave]
    exact sorted
  · intro before x after split
    exact Piece.length_kept_before sorted (fun _ _ => Nat.zero_le _) split
  · exact render_of_bare

end Ast.Program
end JsxProvenance
