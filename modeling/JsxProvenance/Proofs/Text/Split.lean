import Mathlib.Data.List.Basic
import JsxProvenance.Text.Split

/-! Texts taken apart at a separator. A part that stands between two separators can be seen in the
text itself, by a search for it together with the separators around it.
-/

namespace JsxProvenance

/-- A text occurs in another if the other has it as an infix, by induction over the other text. -/
theorem occursIn_iff_infix {part text : List Char} : occursIn part text = true ↔ part <:+: text := by
  induction text with
  | nil => rw [occursIn, List.isEmpty_iff, List.infix_nil]
  | cons c rest ih =>
      rw [occursIn, Bool.or_eq_true, List.isPrefixOf_iff_prefix, ih, List.infix_cons_iff]

/-- Taking a text apart is splitting the list of its characters. -/
theorem splitAtChar_eq_splitOn (separator : Char) (text : List Char)
    : splitAtChar separator text = text.splitOn separator := by
  induction text with
  | nil => rw [splitAtChar, List.splitOn_nil]
  | cons c rest ih =>
      rw [splitAtChar, List.splitOn_cons_eq_if_modifyHead, ih]
      cases split : rest.splitOn separator with
      | nil => exact absurd split (List.splitOn_ne_nil separator rest)
      | cons part parts => rfl

theorem splitAtChar_ne_nil (separator : Char) (text : List Char)
    : splitAtChar separator text ≠ [] := by
  rw [splitAtChar_eq_splitOn]
  exact List.splitOn_ne_nil separator text

theorem splitAtChar_append (separator : Char) (before after : List Char)
    : splitAtChar separator (before ++ separator :: after)
      = splitAtChar separator before ++ splitAtChar separator after := by
  simp only [splitAtChar_eq_splitOn, List.splitOn_append_cons_self]

/-- A part without the separator comes off whole. -/
theorem splitAtChar_cons_part {separator : Char} {part : List Char} (plain : separator ∉ part)
    (after : List Char)
    : splitAtChar separator (part ++ separator :: after)
      = part :: splitAtChar separator after := by
  simp only [splitAtChar_eq_splitOn, List.splitOn_append_cons_self_of_not_mem plain]

/-- The text of parts that stand behind one another, by induction over the parts in front. -/
theorem intercalate_append (separator : Char) {before after : List (List Char)}
    (front : before ≠ []) (behind : after ≠ [])
    : [separator].intercalate (before ++ after)
      = [separator].intercalate before ++ separator :: [separator].intercalate after := by
  induction before with
  | nil => exact absurd rfl front
  | cons part rest ih =>
      cases rest with
      | nil =>
          rw [List.singleton_append, List.intercalate_cons_of_ne_nil behind, List.intercalate_singleton,
            List.append_assoc, List.singleton_append]
      | cons next parts =>
          rw [List.cons_append, List.cons_append, List.intercalate_cons_cons,
            List.intercalate_cons_cons, ← List.cons_append, ih (List.cons_ne_nil next parts),
            List.append_assoc, List.append_assoc, List.append_assoc]

/-- Parts that are found next to one another, with a part in front and one behind, are in the text
with a separator on each side.
-/
theorem exists_of_splitAtChar {separator : Char} {text : List Char}
    {before parts after : List (List Char)}
    (split : splitAtChar separator text = before ++ (parts ++ after)) (front : before ≠ [])
    (middle : parts ≠ []) (behind : after ≠ [])
    : ∃ start rest,
        text
        = start ++ separator :: ([separator].intercalate parts ++ separator :: rest) := by
  have joined : [separator].intercalate (text.splitOn separator) = text :=
    List.intercalate_splitOn separator
  rw [← splitAtChar_eq_splitOn, split,
    intercalate_append separator front (List.append_ne_nil_of_left_ne_nil middle after),
    intercalate_append separator middle behind] at joined
  exact ⟨_, _, joined.symm⟩

end JsxProvenance
