import JsxProvenance.Proofs.Render.Spread
import JsxProvenance.Proofs.Tree.Elements
import JsxProvenance.Proofs.Tree.Outline

/-! Reading a rendered program again. The text becomes the source, nothing is inserted any more,
and each offset moves behind what was put in at it. What is added after that is rendered as if it
had been added before, since an element then still writes behind its own last attribute.
-/

namespace JsxProvenance

open Ast

-----------------------------------------------------------------------------------------
-- What one element writes
-----------------------------------------------------------------------------------------

namespace Splice

def addedText (additions : List (String × String)) : List UInt8 :=
  additions.flatMap fun (name, value) => Utf8.encode (writtenAttribute name (some value))

/-- What an element that gains attributes writes at an offset: nothing at any but its own. -/
def gainedAt (n : Node) (additions : List (String × String)) (i : Nat) : List UInt8 :=
  if n.insertOffset? = some i then addedText additions else []

theorem flatten_insertedAttributes (p : Position) (additions : List (String × String))
    : ((Node.insertedAttributes p additions).filterMap attributeText?).flatten
      = addedText additions := by
  induction additions with
  | nil => rfl
  | cons addition rest ih => exact congrArg (Utf8.encode _ ++ ·) ih

theorem textAt_ofNode_element (p : Position) (name : Node) (attrs children : List Node)
    (sc : Bool) (off : Option Nat) (i : Nat)
    : textAt (ofNode (.element p name attrs children sc off)) i
      = if off = some i then (attrs.filterMap attributeText?).flatten else [] := by
  cases off with
  | none => rfl
  | some offset => rw [ofNode, textAt_map]; simp

theorem attributeText?_redraw_adding (added : Address → List (String × String)) (n : Node)
    : attributeText? (n.redraw (.adding added)) = attributeText? n := by
  cases n with
  | leaf p form => cases form <;> rfl
  | _ => rfl

/-- An element that gains attributes writes what it wrote, and then these. -/
theorem textAt_ofNode_adding (added : Address → List (String × String)) (n : Node) (i : Nat)
    : textAt (ofNode (n.redraw (.adding added))) i
      = textAt (ofNode n) i ++ gainedAt n (added []) i := by
  cases n with
  | element p name attrs children sc off =>
      have kept := Node.filterMap_listRedraw
        (fun i n => attributeText?_redraw_adding (fun a => added (.attribute i :: a)) n) attrs
      rw [Node.redraw, textAt_ofNode_element, textAt_ofNode_element, gainedAt, Node.insertOffset?,
        List.filterMap_append, List.flatten_append, Redraw.gained, flatten_insertedAttributes,
        Redraw.adding_offset]
      by_cases here : off = some i
      · rw [if_pos here, if_pos here, if_pos here]
        exact congrArg (List.flatten · ++ _) kept
      · rw [if_neg here, if_neg here, if_neg here, List.append_nil]
  | _ => rfl

theorem textAt_ofNode_eq_nil {n : Node} {i : Nat} (elsewhere : n.insertOffset? ≠ some i)
    : textAt (ofNode n) i = [] := by
  cases n with
  | element p name attrs children sc off =>
      rw [textAt_ofNode_element]
      exact if_neg elsewhere
  | _ => rfl

/-- What puts in nothing at an offset where the other puts in something can be put in later, by
induction over the places.
-/
theorem flatMap_append_of_pairwise {α : Type} {first second : α → List UInt8} {xs : List α}
    (apart : xs.Pairwise fun x y => second x = [] ∨ first y = [])
    : xs.flatMap (fun x => first x ++ second x) = xs.flatMap first ++ xs.flatMap second := by
  induction xs with
  | nil => rfl
  | cons x rest ih =>
      obtain ⟨here, apart⟩ := List.pairwise_cons.mp apart
      rw [List.flatMap_cons, List.flatMap_cons, List.flatMap_cons, ih apart]
      by_cases nothing : second x = []
      · simp only [nothing, List.append_nil, List.nil_append, List.append_assoc]
      · have empty : rest.flatMap first = [] :=
          List.flatMap_eq_nil_iff.mpr fun y member => (here y member).resolve_left nothing
        simp only [empty, List.append_nil, List.nil_append, List.append_assoc]

end Splice

-----------------------------------------------------------------------------------------
-- Offsets of elements
-----------------------------------------------------------------------------------------

namespace Ast

theorem Node.insertOffset?_redraw (r : Redraw) {n : Node} (element : n.isElement = true)
    : (n.redraw r).insertOffset? = r.offset n.insertOffset? := by
  cases n with
  | element => rfl
  | _ => cases element

theorem Node.isElement_of_insertOffset? {n : Node} {offset : Nat}
    (own : n.insertOffset? = some offset)
    : n.isElement = true := by
  cases n with
  | element => rfl
  | _ => cases own

namespace Program

/-- The insert offsets of the elements of a program in walk order. -/
def offsets (p : Program) : List (Option Nat) :=
  (p.walk.filter (·.node.isElement)).map (·.node.insertOffset?)

/-- Each element has an offset within the source, and no two have the same. -/
structure Placed (p : Program) : Prop where
  within : ∀ o ∈ p.offsets, ∃ offset, o = some offset ∧ offset ≤ p.source.length
  apart : p.offsets.Nodup

/-- A drawing has the offsets of the program as it draws them. -/
theorem offsets_redraw (r : Redraw) (p : Program)
    : (p.redraw r).offsets = p.offsets.map r.offset := by
  change (p.redraw r).elementPlaces.map (·.node.insertOffset?)
    = (p.elementPlaces.map (·.node.insertOffset?)).map r.offset
  rw [elementPlaces_redraw, List.map_map, List.map_map]
  refine List.map_congr_left fun place member => ?_
  exact Node.insertOffset?_redraw _ (List.mem_filter.mp member).2

theorem Placed.redraw_adding {p : Program} (placed : p.Placed)
    (added : Address → List (String × String))
    : (p.redraw (.adding added)).Placed := by
  have same : (p.redraw (.adding added)).offsets = p.offsets :=
    (offsets_redraw _ p).trans (List.map_id _)
  exact ⟨by rw [same]; exact placed.within, by rw [same]; exact placed.apart⟩

theorem Placed.within_splices {p : Program} (placed : p.Placed)
    : ∀ s ∈ p.splices, s.offset ≤ p.source.length := by
  intro s member
  obtain ⟨place, visited, written⟩ := List.mem_flatMap.mp member
  have own : place.node.isElement = true ∧ place.node.insertOffset? = some s.offset := by
    cases form : place.node with
    | element p name attrs children sc off =>
        rw [form] at written
        cases off with
        | none => cases written
        | some offset =>
            obtain ⟨text, _, rfl⟩ := List.mem_map.mp written
            exact ⟨rfl, rfl⟩
    | _ => rw [form] at written; cases written
  have listed : some s.offset ∈ p.offsets :=
    List.mem_map.mpr ⟨place, List.mem_filter.mpr ⟨visited, own.1⟩, own.2⟩
  obtain ⟨offset, same, inside⟩ := placed.within _ listed
  exact Option.some.inj same ▸ inside

-----------------------------------------------------------------------------------------
-- Reading again
-----------------------------------------------------------------------------------------

/-- Where an offset lies in the rendered text: behind all that was put in up to it. -/
def movedOffset (p : Program) (offset : Nat) : Nat :=
  offset + ((p.splices.filter (·.offset ≤ offset)).map (·.text.length)).sum

end Program

/-- The drawing of a tree that is read again: nothing is inserted, and offsets have moved. -/
def Redraw.reading (move : Nat → Nat) : Redraw where
  inserted _ := false
  offset := Option.map move

namespace Program

/-- The program that is read from the rendered text. -/
def reread (p : Program) : Program :=
  { p.redraw (.reading p.movedOffset) with source := p.render }

theorem movedOffset_eq_landing (p : Program)
    : p.movedOffset = Splice.landing (Splice.textAt p.splices) :=
  funext fun offset => (Splice.landing_textAt p.splices offset).symm

theorem movedOffset_strictMono (p : Program) : StrictMono p.movedOffset := by
  rw [movedOffset_eq_landing]
  exact Splice.landing_strictMono _

theorem offsets_reread (p : Program) : p.reread.offsets = p.offsets.map (Option.map p.movedOffset) :=
  offsets_redraw (.reading p.movedOffset) p

/-- A program that is read again has its elements placed where they were. -/
theorem Placed.reread {p : Program} (placed : p.Placed) : p.reread.Placed where
  within := by
    intro o member
    rw [offsets_reread] at member
    obtain ⟨former, listed, rfl⟩ := List.mem_map.mp member
    obtain ⟨offset, rfl, inside⟩ := placed.within former listed
    refine ⟨p.movedOffset offset, rfl, ?_⟩
    have length : p.reread.source.length = p.movedOffset p.source.length := by
      rw [movedOffset_eq_landing, ← Splice.length_spread, ← render_eq_spread placed.within_splices]
      rfl
    rw [length]
    exact p.movedOffset_strictMono.monotone inside
  apart := by
    rw [offsets_reread]
    exact placed.apart.map (Option.map_injective p.movedOffset_strictMono.injective)

-----------------------------------------------------------------------------------------
-- Additions after reading
-----------------------------------------------------------------------------------------

def gainedText (p : Program) (added : Address → List (String × String)) (i : Nat) : List UInt8 :=
  p.walk.flatMap fun place => Splice.gainedAt place.node (added place.address) i

theorem textAt_splices_redraw (p : Program) (r : Redraw) (i : Nat)
    : Splice.textAt (p.redraw r).splices i
      = p.walk.flatMap fun place => Splice.textAt (Splice.ofNode (place.redraw r).node) i := by
  rw [splices, flatMap_walk_redraw, Splice.textAt_flatMap]
  intro place mark
  obtain ⟨q, form, text⟩ := Node.exists_leaf_of_isMark mark
  rw [text]
  rfl

/-- Only one element writes at an offset. -/
theorem Placed.pairwise_walk {p : Program} (placed : p.Placed)
    (added : Address → List (String × String)) (i : Nat)
    : p.walk.Pairwise fun first second =>
        Splice.gainedAt first.node (added first.address) i = []
        ∨ Splice.textAt (Splice.ofNode second.node) i = [] := by
  have apart := placed.apart
  rw [offsets, List.Nodup, List.pairwise_map, List.pairwise_filter] at apart
  refine apart.imp fun {first second} different => ?_
  by_cases here : first.node.insertOffset? = some i
  · refine Or.inr (Splice.textAt_ofNode_eq_nil fun there => ?_)
    exact different (Node.isElement_of_insertOffset? here) (Node.isElement_of_insertOffset? there)
      (here.trans there.symm)
  · exact Or.inl (if_neg here)

theorem Placed.textAt_adding {p : Program} (placed : p.Placed)
    (added : Address → List (String × String)) (i : Nat)
    : Splice.textAt (p.redraw (.adding added)).splices i
      = Splice.textAt p.splices i ++ p.gainedText added i := by
  have each (place : Place)
      : Splice.textAt (Splice.ofNode (place.redraw (.adding added)).node) i
        = Splice.textAt (Splice.ofNode place.node) i
          ++ Splice.gainedAt place.node (added place.address) i := by
    have own := Splice.textAt_ofNode_adding (fun b => added (place.address ++ b)) place.node i
    rwa [List.append_nil] at own
  rw [textAt_splices_redraw, splices, Splice.textAt_flatMap, gainedText,
    ← Splice.flatMap_append_of_pairwise (placed.pairwise_walk added i)]
  exact List.flatMap_congr fun place _ => each place

/-- An element that is read again and gains attributes writes these where its offset lies now. -/
theorem textAt_ofNode_reading (move : Nat → Nat) (added : Address → List (String × String))
    (n : Node) (i : Nat)
    : Splice.textAt (Splice.ofNode (n.redraw { Redraw.reading move with added })) i
      = if n.insertOffset?.map move = some i then Splice.addedText (added []) else [] := by
  cases n with
  | element p name attrs children sc off =>
      have silent (r : Nat → Redraw) (cleared : ∀ j b, (r j).inserted b = false)
          : (Node.listRedraw r attrs).filterMap Splice.attributeText? = [] := by
        rw [Node.filterMap_listRedraw (g := fun _ => none), List.filterMap_none]
        intro j n
        cases n with
        | leaf q form =>
            cases form with
            | jsxAttribute label value inserted =>
                rw [Node.redraw, Redraw.leaf, cleared]
                rfl
            | _ => rfl
        | _ => rfl
      rw [Node.redraw, Splice.textAt_ofNode_element, List.filterMap_append, silent _ fun _ _ => rfl,
        List.nil_append, Redraw.gained, Splice.flatten_insertedAttributes]
      rfl
  | _ => rfl

theorem textAt_splices_reread_adding (p : Program) (added : Address → List (String × String))
    (i : Nat)
    : Splice.textAt (p.reread.redraw (.adding added)).splices i
      = p.walk.flatMap fun place =>
          if place.node.insertOffset?.map p.movedOffset = some i then
            Splice.addedText (added place.address)
          else [] := by
  have tree : (p.reread.redraw (.adding added)).splices
      = (p.redraw { Redraw.reading p.movedOffset with added }).splices := by
    change ((p.redraw (.reading p.movedOffset)).redraw (.adding added)).splices = _
    rw [redraw_redraw_adding]
    rfl
  rw [tree, textAt_splices_redraw]
  refine List.flatMap_congr fun place _ => ?_
  have own := textAt_ofNode_reading p.movedOffset (fun b => added (place.address ++ b)) place.node i
  rwa [List.append_nil] at own

theorem textAt_reread_adding (p : Program) (added : Address → List (String × String)) (i : Nat)
    : Splice.textAt (p.reread.redraw (.adding added)).splices (p.movedOffset i)
      = p.gainedText added i := by
  rw [textAt_splices_reread_adding, gainedText]
  refine List.flatMap_congr fun place _ => ?_
  have same : place.node.insertOffset?.map p.movedOffset = some (p.movedOffset i)
      ↔ place.node.insertOffset? = some i := by
    rw [← Option.map_some, (Option.map_injective p.movedOffset_strictMono.injective).eq_iff]
  simp only [same, Splice.gainedAt]

theorem landed_reread_adding (p : Program) (added : Address → List (String × String)) (n : Nat)
    (something : Splice.textAt (p.reread.redraw (.adding added)).splices n ≠ [])
    : ∃ i, n = p.movedOffset i := by
  rw [textAt_splices_reread_adding, ne_eq, List.flatMap_eq_nil_iff] at something
  push Not at something
  obtain ⟨place, _, written⟩ := something
  by_cases here : place.node.insertOffset?.map p.movedOffset = some n
  · obtain ⟨i, _, same⟩ := Option.map_eq_some_iff.mp here
    exact ⟨i, same.symm⟩
  · exact absurd (if_neg here) written

/-- Offsets move after reading as they would have without it. -/
theorem Placed.movedOffset_reread_adding {p : Program} (placed : p.Placed)
    (added : Address → List (String × String)) (offset : Nat)
    : (p.reread.redraw (.adding added)).movedOffset (p.movedOffset offset)
      = (p.redraw (.adding added)).movedOffset offset := by
  have landed := p.landed_reread_adding added
  rw [movedOffset_eq_landing p] at landed
  rw [movedOffset_eq_landing, movedOffset_eq_landing p, movedOffset_eq_landing,
    Splice.landing_landing landed, ← movedOffset_eq_landing p]
  simp only [textAt_reread_adding, ← placed.textAt_adding]

/-- What is added after reading is rendered as it would have been without reading. -/
theorem Placed.render_reread_adding {p : Program} (placed : p.Placed)
    (added : Address → List (String × String))
    : (p.reread.redraw (.adding added)).render = (p.redraw (.adding added)).render := by
  have landed := p.landed_reread_adding added
  rw [movedOffset_eq_landing p] at landed
  have source : (p.reread.redraw (.adding added)).source
      = Splice.spread (Splice.textAt p.splices) p.source :=
    render_eq_spread placed.within_splices
  rw [render_eq_spread (placed.reread.redraw_adding added).within_splices, source,
    Splice.spread_spread landed, ← movedOffset_eq_landing p,
    render_eq_spread (placed.redraw_adding added).within_splices]
  simp only [textAt_reread_adding, ← placed.textAt_adding]
  rfl

/-- Reading between two additions makes no difference when the text is read after both. -/
theorem Placed.reread_adding_reread {p : Program} (placed : p.Placed)
    (added : Address → List (String × String))
    : (p.reread.redraw (.adding added)).reread = (p.redraw (.adding added)).reread := by
  refine ext_toNode ?_ (placed.render_reread_adding added)
  change ((p.reread.redraw (.adding added)).redraw (.reading _)).toNode
    = ((p.redraw (.adding added)).redraw (.reading _)).toNode
  have tree : p.reread.toNode = p.toNode.redraw (.reading p.movedOffset) :=
    toNode_redraw (.reading p.movedOffset) p
  rw [toNode_redraw, toNode_redraw, toNode_redraw, toNode_redraw, tree,
    Node.redraw_redraw_adding]
  apply Node.redraw_redraw_congr
  refine ⟨fun _ => rfl, fun _ => rfl, fun _ => rfl, fun o => ?_, fun a q => ?_⟩
  · cases o with
    | none => rfl
    | some offset => exact congrArg some (placed.movedOffset_reread_adding added offset)
  · rfl

end Program
end Ast
end JsxProvenance
