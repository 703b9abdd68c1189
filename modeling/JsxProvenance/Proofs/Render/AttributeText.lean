import JsxProvenance.Attribute.Written
import JsxProvenance.Proofs.Text.JsonString

/-! Reading written attributes back. The name ends at the first equals sign. A value in quotes ends
at the next quote and is read as it stands, and one in braces is a JSON string literal, with the
closing brace right behind it.
-/

namespace JsxProvenance

/-- Reads characters up to the first of a kind, which has to be there, and gives the text behind it.
-/
def readUpTo (stop : Char) : List Char → Option (List Char × List Char)
  | [] => none
  | c :: rest =>
      if c = stop then some ([], rest)
      else (readUpTo stop rest).map fun read => (c :: read.1, read.2)

/-- Reads the value of an attribute in either form, and gives the text behind it as well. -/
def readValue : List Char → Option (List Char × List Char)
  | '"' :: inside => readUpTo '"' inside
  | '\x7b' :: literal =>
      match JsonString.read literal with
      | some (value, '\x7d' :: behind) => some (value, behind)
      | _ => none
  | _ => none

/-- Reads an attribute with the space in front of it: its name, its value and the text behind it. -/
def readAttribute : List Char → Option (List Char × List Char × List Char)
  | ' ' :: text => do
      let (name, later) ← readUpTo '=' text
      let (value, behind) ← readValue later
      return (name, value, behind)
  | _ => none

theorem readUpTo_append {stop : Char} {text : List Char} (absent : stop ∉ text) (behind : List Char)
    : readUpTo stop (text ++ stop :: behind) = some (text, behind) := by
  induction text with
  | nil => exact if_pos rfl
  | cons c rest ih =>
      rw [List.mem_cons, not_or] at absent
      obtain ⟨other, later⟩ := absent
      rw [List.cons_append, readUpTo, if_neg (Ne.symm other), ih later]
      rfl

theorem needsExpression_eq_false_iff {value : List Char}
    : needsExpression value = false ↔ '"' ∉ value ∧ '\\' ∉ value ∧ '\n' ∉ value := by
  simp [needsExpression, and_assoc]

/-- The form in which a value is written: between quotes, if it has neither a quote nor a backslash
nor a line feed in it, and else as a JSON string literal in braces.
-/
inductive ValueForm (value : List Char) : List Char → Prop
  | quoted (quote : '"' ∉ value) (backslash : '\\' ∉ value) (newline : '\n' ∉ value)
    : ValueForm value ('"' :: (value ++ ['"']))
  | braced {literal : List Char} (printable : ∀ c ∈ literal, JsonString.IsPrintable c)
    (means : JsonString.read literal = some (value, []))
    : ValueForm value ('\x7b' :: (literal ++ ['\x7d']))

theorem valueForm_writtenValue (value : List Char) : ValueForm value (writtenValue value) := by
  rw [writtenValue]
  split
  · refine .braced (fun c member => JsonString.isPrintable_encode member) ?_
    have whole := JsonString.read_encode value []
    rwa [List.append_nil] at whole
  · next plain =>
      obtain ⟨quote, backslash, newline⟩ :=
        needsExpression_eq_false_iff.mp (Bool.eq_false_iff.mpr plain)
      exact .quoted quote backslash newline

/-- A written value is read as the value, and nothing behind it is read. -/
theorem readValue_writtenValue (value behind : List Char)
    : readValue (writtenValue value ++ behind) = some (value, behind) := by
  rw [writtenValue]
  split
  · have read := JsonString.read_encode value ('\x7d' :: behind)
    simp [readValue, read]
  · next plain =>
      obtain ⟨quote, _⟩ := needsExpression_eq_false_iff.mp (Bool.eq_false_iff.mpr plain)
      have read := readUpTo_append quote behind
      simpa [readValue] using read

/-- Writing an attribute loses nothing. It is written as a space, its name, an equals sign and its
value in one of two forms, and is read back as this name and this value, the empty one if there is
none. What stands behind the attribute is left over as it is.
-/
theorem readAttribute_written {name : String} (plain : '=' ∉ name.toList) (value : Option String)
    (behind : List Char)
    : (∃ form,
        writtenAttribute name value = ' ' :: (name.toList ++ '=' :: form)
        ∧ ValueForm (value.getD "").toList form)
      ∧ readAttribute (writtenAttribute name value ++ behind)
        = some (name.toList, (value.getD "").toList, behind) := by
  refine ⟨⟨_, rfl, valueForm_writtenValue _⟩, ?_⟩
  have text : writtenAttribute name value ++ behind
      = ' ' :: (name.toList ++ '=' :: (writtenValue (value.getD "").toList ++ behind)) := by
    simp [writtenAttribute]
  rw [text, readAttribute, readUpTo_append plain]
  simp [readValue_writtenValue]

/-- A value with a quote, a backslash, a line feed, a control character and a character of an upper
plane is written in braces, with a surrogate pair, and is read back in front of what follows it.
-/
theorem readAttribute_written_braced
    : writtenAttribute "data-sentry-element" (some "a\"b\\c\nd\x7f😀")
        = " data-sentry-element=\x7b\"a\\\"b\\\\c\\nd\\u007f\\ud83d\\ude00\"\x7d".toList
      ∧ readAttribute
          (writtenAttribute "data-sentry-element" (some "a\"b\\c\nd\x7f😀") ++ "/>".toList)
        = some ("data-sentry-element".toList, "a\"b\\c\nd\x7f😀".toList, "/>".toList) := by
  have name : '=' ∉ "data-sentry-element".toList := by
    decide
  exact ⟨by decide +kernel, (readAttribute_written name _ "/>".toList).2⟩

end JsxProvenance
