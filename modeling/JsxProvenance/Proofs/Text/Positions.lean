import Mathlib.Data.Prod.Lex
import JsxProvenance.Cst.Node

/-! The order of the positions in a text. A position is its line and its column, compared in this
order, and each byte of the text leads to a greater one, a line break among them.
-/

namespace JsxProvenance

namespace Position

/-- A position as a pair of numbers, with the line before the column. -/
def key (p : Position) : ℕ ×ₗ ℕ :=
  toLex (p.line, p.column)

variable (p : Position)

/-- A byte leads to a greater position: the next column, or the first one of the next line. -/
theorem key_lt_next (b : UInt8)
    : p.key < (if b = 10 then (⟨p.line + 1, 1⟩ : Position) else ⟨p.line, p.column + 1⟩).key := by
  rw [key, key, Prod.Lex.toLex_lt_toLex]
  split
  · exact Or.inl (Nat.lt_succ_self _)
  · exact Or.inr ⟨rfl, Nat.lt_succ_self _⟩

/-- Bytes never lead back, by induction on their number. -/
theorem key_le_after (count : Nat) (source : List UInt8)
    : p.key ≤ (p.after count source).key := by
  induction count generalizing p source with
  | zero => exact le_refl _
  | succ count ih =>
      cases source with
      | nil => exact le_refl _
      | cons b rest => exact le_of_lt (lt_of_lt_of_le (p.key_lt_next b) (ih _ rest))

theorem key_lt_after {count : Nat} {source : List UInt8} (forward : 0 < count)
    (nonempty : source ≠ [])
    : p.key < (p.after count source).key := by
  cases count with
  | zero => cases forward
  | succ count =>
      cases source with
      | nil => exact absurd rfl nonempty
      | cons b rest => exact lt_of_lt_of_le (p.key_lt_next b) (key_le_after _ count rest)

/-- Some bytes lead on from where others led to. -/
theorem after_add (first second : Nat) (source : List UInt8)
    : p.after (first + second) source
      = (p.after first source).after second (source.drop first) := by
  induction first generalizing p source with
  | zero =>
      rw [Nat.zero_add]
      rfl
  | succ first ih =>
      rw [Nat.add_right_comm]
      cases source with
      | nil => cases second <;> rfl
      | cons b rest => exact ih _ rest

end Position

/-- The position of an offset in a text, as a pair of numbers. -/
def positionKey (source : List UInt8) (offset : Nat) : ℕ ×ₗ ℕ :=
  (Position.after ⟨1, 1⟩ offset source).key

/-- Greater offsets have no smaller positions. -/
theorem positionKey_mono (source : List UInt8) : Monotone (positionKey source) := by
  intro a b le
  obtain ⟨count, rfl⟩ := Nat.exists_eq_add_of_le le
  rw [positionKey, positionKey, Position.after_add]
  exact Position.key_le_after _ count _

/-- Within the text, greater offsets have greater positions. -/
theorem positionKey_lt {source : List UInt8} {a b : Nat} (less : a < b) (inside : a < source.length)
    : positionKey source a < positionKey source b := by
  obtain ⟨count, rfl⟩ := Nat.exists_eq_add_of_le (Nat.le_of_lt less)
  rw [positionKey, positionKey, Position.after_add]
  refine Position.key_lt_after _ (Nat.lt_add_right_iff_pos.mp less) ?_
  rw [ne_eq, List.drop_eq_nil_iff]
  exact Nat.not_le_of_lt inside

end JsxProvenance
