import Mathlib.Algebra.BigOperators.Intervals
import JsxProvenance.Proofs.Render.Pieces

/-! Splices by their offsets. All that is put in at one offset is one text, so a rendered source is
its bytes with a text before each and one at the end. Texts that are put in behind earlier ones
come to the same as both put in at once, as long as they are put in where the offsets have moved.
-/

namespace JsxProvenance

open Ast

namespace Splice

-----------------------------------------------------------------------------------------
-- Texts between the bytes
-----------------------------------------------------------------------------------------

/-- Puts a text before each byte, and one behind the last. -/
def spread (text : Nat → List UInt8) : List UInt8 → List UInt8
  | [] => text 0
  | b :: rest => text 0 ++ b :: spread (fun i => text (i + 1)) rest

/-- Where an offset lies when texts have been put in: behind its own text. -/
def landing (text : Nat → List UInt8) : Nat → Nat
  | 0 => (text 0).length
  | i + 1 => (text 0).length + 1 + landing (fun j => text (j + 1)) i

theorem spread_nothing (source : List UInt8) : spread (fun _ => []) source = source := by
  induction source with
  | nil => rfl
  | cons b rest ih => rw [spread, ih, List.nil_append]

/-- Bytes without texts before them are kept as they are, by induction over them. -/
theorem spread_append {text : Nat → List UInt8} {first : List UInt8}
    (nothing : ∀ i < first.length, text i = []) (second : List UInt8)
    : spread text (first ++ second)
      = first ++ spread (fun i => text (first.length + i)) second := by
  induction first generalizing text with
  | nil => simp
  | cons b rest ih =>
      have here : text 0 = [] := nothing 0 (Nat.zero_lt_succ _)
      have later := ih fun i inside => nothing (i + 1) (Nat.succ_lt_succ inside)
      rw [List.cons_append, spread, here, later, List.nil_append, List.cons_append]
      simp only [List.length_cons, Nat.add_right_comm]

/-- The front of the first text stands before all else. -/
theorem spread_of_front {text others : Nat → List UInt8} {front : List UInt8}
    (first : text 0 = front ++ others 0) (later : ∀ i, text (i + 1) = others (i + 1))
    (source : List UInt8)
    : spread text source = front ++ spread others source := by
  cases source with
  | nil => exact first
  | cons b rest => rw [spread, spread, first, funext later, List.append_assoc]

/-- An offset moves by the texts up to it, by induction on the offset. -/
theorem landing_eq_sum (text : Nat → List UInt8) (i : Nat)
    : landing text i = i + ∑ j ∈ Finset.range (i + 1), (text j).length := by
  induction i generalizing text with
  | zero => simp [landing]
  | succ i ih =>
      rw [landing, ih, Finset.sum_range_succ' _ (i + 1)]
      omega

theorem landing_strictMono (text : Nat → List UInt8) : StrictMono (landing text) := by
  refine strictMono_nat_of_lt_succ fun i => ?_
  rw [landing_eq_sum, landing_eq_sum, Finset.sum_range_succ _ (i + 1)]
  omega

theorem length_spread (text : Nat → List UInt8) (source : List UInt8)
    : (spread text source).length = landing text source.length := by
  induction source generalizing text with
  | nil => rfl
  | cons b rest ih =>
      rw [spread, List.length_append, List.length_cons, ih, List.length_cons, landing]
      omega

/-- Nothing is put in before the first offset has landed. -/
theorem eq_nil_of_landed {text more : Nat → List UInt8}
    (landed : ∀ n, more n ≠ [] → ∃ i, n = landing text i) (n : Nat)
    (before : n < (text 0).length)
    : more n = [] := by
  by_contra something
  obtain ⟨i, rfl⟩ := landed n something
  have lowest : landing text 0 ≤ landing text i :=
    (landing_strictMono text).monotone (Nat.zero_le i)
  rw [landing] at lowest
  omega

/-- Texts that are put in where offsets have landed come behind the texts at these offsets, by
induction over the bytes.
-/
theorem spread_spread {text more : Nat → List UInt8}
    (landed : ∀ n, more n ≠ [] → ∃ i, n = landing text i) (source : List UInt8)
    : spread more (spread text source)
      = spread (fun i => text i ++ more (landing text i)) source := by
  induction source generalizing text more with
  | nil =>
      rw [spread, ← List.append_nil (text 0), spread_append (eq_nil_of_landed landed)]
      rfl
  | cons b rest ih =>
      -- the texts behind the first byte have landed behind it
      have further (n : Nat) (something : more ((text 0).length + (n + 1)) ≠ [])
          : ∃ i, n = landing (fun j => text (j + 1)) i := by
        obtain ⟨i, same⟩ := landed _ something
        cases i with
        | zero =>
            rw [landing] at same
            omega
        | succ i =>
            rw [landing] at same
            exact ⟨i, by omega⟩
      rw [spread, spread_append (eq_nil_of_landed landed), spread, ih further, spread,
        List.append_assoc]
      simp only [landing, Nat.add_zero, Nat.add_assoc, Nat.add_comm 1]

/-- Offsets that move twice move by the texts that are put in at both times. -/
theorem landing_landing {text more : Nat → List UInt8}
    (landed : ∀ n, more n ≠ [] → ∃ i, n = landing text i) (i : Nat)
    : landing more (landing text i) = landing (fun j => text j ++ more (landing text j)) i := by
  have ends := congrArg List.length (spread_spread landed (List.replicate i 0))
  simpa only [length_spread, List.length_replicate] using ends

-----------------------------------------------------------------------------------------
-- The text at an offset
-----------------------------------------------------------------------------------------

/-- All that splices put in at an offset, in their order. -/
def textAt (splices : List Splice) (i : Nat) : List UInt8 :=
  (splices.filter (·.offset == i)).flatMap (·.text)

theorem textAt_cons (s : Splice) (rest : List Splice) (i : Nat)
    : textAt (s :: rest) i = (if s.offset = i then s.text else []) ++ textAt rest i := by
  by_cases here : s.offset = i <;> simp [textAt, here]

theorem textAt_flatMap {α : Type} (splices : α → List Splice) (xs : List α) (i : Nat)
    : textAt (xs.flatMap splices) i = xs.flatMap fun x => textAt (splices x) i := by
  rw [textAt, List.filter_flatMap, List.flatMap_assoc]
  rfl

theorem textAt_eq_nil {splices : List Splice} {i : Nat}
    (other : ∀ s ∈ splices, s.offset ≠ i)
    : textAt splices i = [] := by
  have nothing : splices.filter (·.offset == i) = [] := by
    simpa [List.filter_eq_nil_iff] using other
  rw [textAt, nothing, List.flatMap_nil]

theorem textAt_map (texts : List (List UInt8)) (offset i : Nat)
    : textAt (texts.map fun text => ⟨offset, text⟩) i
      = if offset = i then texts.flatten else [] := by
  by_cases here : offset = i
  · rw [if_pos here, textAt, List.filter_eq_self.mpr (by simpa using fun _ _ => here),
      List.flatMap_map, List.flatMap_id']
  · rw [if_neg here, textAt_eq_nil (by simpa using fun _ _ => here)]

/-- A splice that is put in order keeps its place among those of its offset, by induction over the
others.
-/
theorem textAt_insertSorted (s : Splice) (splices : List Splice) (i : Nat)
    : textAt (insertSorted s splices) i = textAt (s :: splices) i := by
  induction splices with
  | nil => rfl
  | cons t rest ih =>
      rw [insertSorted]
      split
      · rfl
      · next after =>
          rw [textAt_cons, ih, textAt_cons, textAt_cons, textAt_cons]
          by_cases here : s.offset = i
          · have apart : t.offset ≠ i := by omega
            rw [if_neg apart, List.nil_append, List.nil_append]
          · rw [if_neg here, List.nil_append, List.nil_append]

/-- Splices in order put in the same, by induction over them. -/
theorem textAt_sorted (splices : List Splice) (i : Nat)
    : textAt (sorted splices) i = textAt splices i := by
  induction splices with
  | nil => rfl
  | cons s rest ih =>
      rw [sorted, textAt_insertSorted, textAt_cons, ih, ← textAt_cons]

/-- Offsets land behind the texts of all splices up to them, by induction over the splices. -/
theorem landing_textAt (splices : List Splice) (i : Nat)
    : landing (textAt splices) i
      = i + ((splices.filter (·.offset ≤ i)).map (·.text.length)).sum := by
  rw [landing_eq_sum]
  congr 1
  induction splices with
  | nil => simp [textAt]
  | cons s rest ih =>
      have split (j : Nat)
          : (textAt (s :: rest) j).length
            = (if s.offset = j then s.text.length else 0) + (textAt rest j).length := by
        rw [textAt_cons, List.length_append, apply_ite List.length]
        rfl
      simp only [split, Finset.sum_add_distrib, ih, Finset.sum_ite_eq, Finset.mem_range,
        Nat.lt_succ_iff]
      by_cases before : s.offset ≤ i <;> simp [before]

/-- Splices in order put in the text at each offset, if they put in nothing behind the end, by
induction over them.
-/
theorem applySorted_eq_spread {splices : List Splice}
    (ordered : splices.Pairwise ByOffset) {position : Nat} {source : List UInt8}
    (within : ∀ s ∈ splices, position ≤ s.offset ∧ s.offset ≤ position + source.length)
    : applySorted position source splices
      = spread (fun i => textAt splices (position + i)) source := by
  induction splices generalizing position source with
  | nil => exact (spread_nothing source).symm
  | cons s rest ih =>
      obtain ⟨first, ordered⟩ := List.pairwise_cons.mp ordered
      have here := within s List.mem_cons_self
      have enough : (source.take (s.offset - position)).length = s.offset - position := by
        rw [List.length_take]
        omega
      have later (t : Splice) (member : t ∈ rest)
          : s.offset ≤ t.offset
            ∧ t.offset ≤ s.offset + (source.drop (s.offset - position)).length := by
        have end' := within t (List.mem_cons_of_mem s member)
        rw [List.length_drop]
        exact ⟨first t member, by omega⟩
      have early (i : Nat) (before : i < (source.take (s.offset - position)).length)
          : textAt (s :: rest) (position + i) = [] := by
        apply textAt_eq_nil
        intro t member
        rcases List.mem_cons.mp member with rfl | other
        · omega
        · have behind : s.offset ≤ t.offset := first t other
          omega
      rw [applySorted, ih ordered later, List.append_assoc]
      conv => rhs; rw [← List.take_append_drop (s.offset - position) source]
      rw [spread_append early, enough]
      refine congrArg _ (spread_of_front ?_ ?_ _).symm
      · rw [textAt_cons, if_pos (by omega), Nat.add_zero, Nat.add_zero,
          Nat.add_sub_cancel' here.1]
      · intro i
        rw [textAt_cons, if_neg (by omega), List.nil_append, ← Nat.add_assoc,
          Nat.add_sub_cancel' here.1]

end Splice

/-- A program whose splices lie within its source is its source with the text at each offset. -/
theorem Ast.Program.render_eq_spread {p : Program}
    (within : ∀ s ∈ p.splices, s.offset ≤ p.source.length)
    : p.render = Splice.spread (Splice.textAt p.splices) p.source := by
  rw [render_eq_applySorted, Splice.applySorted_eq_spread (Splice.pairwise_sorted p.splices)]
  · simp only [Nat.zero_add, Splice.textAt_sorted]
  · intro s member
    rw [Nat.zero_add]
    exact ⟨Nat.zero_le _, within s ((Splice.sorted_perm p.splices).mem_iff.mp member)⟩

end JsxProvenance
