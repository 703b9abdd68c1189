import Mathlib.Algebra.BigOperators.Group.List.Basic
import Mathlib.Algebra.Order.BigOperators.Group.List
import JsxProvenance.Proofs.Annotation.Counts
import JsxProvenance.Proofs.Render.Reading

/-! How much a rendered program is longer than its source. It is longer by the texts that are put
in, none of which is empty, and each attribute that an element gains is one text more, if the
element has an offset to write at.
-/

namespace JsxProvenance

open Ast

-----------------------------------------------------------------------------------------
-- The length of what is put in
-----------------------------------------------------------------------------------------

namespace Splice

/-- The number of bytes that splices put in. -/
def totalLength (splices : List Splice) : Nat :=
  (splices.map (·.text.length)).sum

/-- Splices make a text longer by what they put in, by induction over them. -/
theorem length_applySorted (position : Nat) (source : List UInt8) (splices : List Splice)
    : (applySorted position source splices).length = source.length + totalLength splices := by
  induction splices generalizing position source with
  | nil => rfl
  | cons s rest ih =>
      have halves : (source.take (s.offset - position)).length
            + (source.drop (s.offset - position)).length
          = source.length := by
        rw [← List.length_append, List.take_append_drop]
      have total : totalLength (s :: rest) = s.text.length + totalLength rest := List.sum_cons
      rw [applySorted, List.length_append, List.length_append, ih, total]
      omega

/-- A text that is put in starts with a space. -/
theorem text_ne_nil {n : Node} {s : Splice} (member : s ∈ ofNode n) : s.text ≠ [] := by
  cases n with
  | element p name attrs children sc off =>
      cases off with
      | none => cases member
      | some offset =>
          obtain ⟨text, written, rfl⟩ := List.mem_map.mp member
          obtain ⟨attr, _, given⟩ := List.mem_filterMap.mp written
          cases attr with
          | leaf q form =>
              cases form with
              | jsxAttribute label value inserted =>
                  cases inserted with
                  | true =>
                      cases given
                      exact List.cons_ne_nil _ _
                  | false => cases given
              | _ => cases given
          | _ => cases given
  | _ => cases member

/-- An element with an offset writes one text more for each attribute that it gains. -/
theorem length_ofNode_adding (added : Address → List (String × String)) {n : Node}
    (writable : n.insertOffset?.isSome = true)
    : (ofNode (n.redraw (.adding added))).length = (ofNode n).length + (added []).length := by
  cases n with
  | element p name attrs children sc off =>
      obtain ⟨offset, rfl⟩ : ∃ offset, off = some offset := Option.isSome_iff_exists.mp writable
      have kept := Node.filterMap_listRedraw
        (fun i n => attributeText?_redraw_adding (fun a => added (.attribute i :: a)) n) attrs
      have gained
          : ((Node.insertedAttributes p (added [])).filterMap attributeText?).length
            = (added []).length := by
        rw [Node.insertedAttributes, List.filterMap_map, List.length_filterMap_eq_countP]
        exact List.countP_eq_length.mpr fun _ _ => rfl
      rw [ofNode, List.length_map, ← gained, ← List.length_append, ← kept, ← List.filterMap_append]
      exact List.length_map _
  | _ => cases writable

/-- An element writes at most one text more for each attribute that it gains, none if it has no
offset.
-/
theorem length_ofNode_adding_le (added : Address → List (String × String)) {n : Node}
    (element : n.isElement = true)
    : (ofNode (n.redraw (.adding added))).length ≤ (ofNode n).length + (added []).length := by
  cases writable : n.insertOffset? with
  | some offset =>
      exact Nat.le_of_eq (length_ofNode_adding added (Option.isSome_iff_exists.mpr ⟨_, writable⟩))
  | none =>
      have still := Node.insertOffset?_redraw (.adding added) element
      rw [writable] at still
      have nothing {m : Node} (unwritable : m.insertOffset? = none) : ofNode m = [] := by
        cases m with
        | element p name attrs children sc off =>
            cases off with
            | none => rfl
            | some offset => cases unwritable
        | _ => rfl
      rw [nothing still]
      exact Nat.zero_le _

end Splice

-----------------------------------------------------------------------------------------
-- Rendered programs
-----------------------------------------------------------------------------------------

namespace Ast.Program

variable {p : Program}

/-- A rendered program is longer than its source by what is put in. -/
theorem length_render (p : Program)
    : p.render.length = p.source.length + Splice.totalLength p.splices := by
  rw [render_eq_applySorted, Splice.length_applySorted]
  exact congrArg (p.source.length + ·) ((Splice.sorted_perm p.splices).map _).sum_eq

/-- A program is rendered as its source only if nothing is put in. -/
theorem render_eq_source_iff (p : Program) : p.render = p.source ↔ p.splices = [] := by
  refine ⟨fun same => ?_, render_of_no_splices⟩
  have length := p.length_render
  rw [same, Nat.left_eq_add, Splice.totalLength, List.sum_eq_zero_iff_forall_eq_nat] at length
  refine List.eq_nil_iff_forall_not_mem.mpr fun s member => ?_
  obtain ⟨place, _, written⟩ := List.mem_flatMap.mp member
  refine Splice.text_ne_nil written (List.length_eq_zero_iff.mp ?_)
  exact length _ (List.mem_map_of_mem member)

theorem Writable.redraw_adding (writable : p.Writable) (added : Address → List (String × String))
    : (p.redraw (.adding added)).Writable := by
  intro place member
  rw [elementPlaces_redraw] at member
  obtain ⟨former, listed, rfl⟩ := List.mem_map.mp member
  rw [Place.redraw, Node.insertOffset?_redraw _ (List.mem_filter.mp listed).2]
  exact writable former listed

/-- Only elements write. -/
theorem splices_eq_elementPlaces (p : Program)
    : p.splices = p.elementPlaces.flatMap fun place => Splice.ofNode place.node := by
  rw [splices, elementPlaces, flatMap_filter]
  refine List.flatMap_congr fun place _ => ?_
  cases form : place.node <;> rfl

/-- Each attribute that a drawing adds is one splice more, if every element can be written to. -/
theorem Writable.length_splices_adding (writable : p.Writable)
    (added : Address → List (String × String))
    : (p.redraw (.adding added)).splices.length = p.splices.length + p.addedTotal added := by
  rw [splices_eq_elementPlaces, splices_eq_elementPlaces p, elementPlaces_redraw,
    List.flatMap_map, List.length_flatMap, List.length_flatMap, addedTotal, ← List.sum_map_add]
  refine congrArg List.sum (List.map_congr_left fun place member => ?_)
  have own :=
    Splice.length_ofNode_adding (fun b => added (place.address ++ b)) (writable place member)
  rwa [List.append_nil] at own

/-- Each attribute that a drawing adds is at most one splice more. -/
theorem length_splices_adding_le (p : Program) (added : Address → List (String × String))
    : (p.redraw (.adding added)).splices.length ≤ p.splices.length + p.addedTotal added := by
  rw [splices_eq_elementPlaces, splices_eq_elementPlaces p, elementPlaces_redraw,
    List.flatMap_map, List.length_flatMap, List.length_flatMap, addedTotal, ← List.sum_map_add]
  refine List.sum_le_sum fun place member => ?_
  have own := Splice.length_ofNode_adding_le (fun b => added (place.address ++ b))
    (List.mem_filter.mp member).2
  rwa [List.append_nil] at own

/-- A run that reports no attributes leaves a program with the same text, if nothing was inserted in
it before.
-/
theorem render_of_none_added {q : Program} {settings : Settings} {path : Option String}
    {report : Report} (unmarked : ∀ place ∈ p.walk, place.node.isInserted = false)
    (returned : p.annotate settings path = .ok (q, report))
    (nothing : report.attributesAdded = 0)
    : q.render = p.source := by
  obtain ⟨added, rfl, total⟩ := annotate_addedTotal returned
  have before : p.splices = [] := p.render_eq_source_iff.mp (render_of_unmarked unmarked)
  have after := p.length_splices_adding_le added
  rw [before, ← total, nothing] at after
  exact render_of_no_splices (List.eq_nil_of_length_eq_zero (Nat.le_zero.mp after))

end Ast.Program
end JsxProvenance
