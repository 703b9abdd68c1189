import JsxProvenance.Text.JsonString
import JsxProvenance.Yaml.Scalar

/-! Reading JSON string literals back. A literal is read as the code units of UTF-16 that it stands
for, and these as characters, a surrogate pair as one. Each character of a text is read back from
its own escape, whatever stands behind it.
-/

namespace JsxProvenance.JsonString

-----------------------------------------------------------------------------------------
-- Reading
-----------------------------------------------------------------------------------------

/-- The code units of a character in UTF-16. -/
def units (c : Char) : List Nat :=
  if c.toNat < 0x10000 then [c.toNat]
  else [0xd800 + (c.toNat - 0x10000) / 0x400, 0xdc00 + (c.toNat - 0x10000) % 0x400]

/-- The character that a backslash and a letter stand for. -/
def letterEscape? : Char → Option Char
  | '"' => some '"'
  | '\\' => some '\\'
  | '/' => some '/'
  | 'b' => some '\x08'
  | 'f' => some '\x0c'
  | 'n' => some '\n'
  | 'r' => some '\r'
  | 't' => some '\t'
  | _ => none

/-- Reads code units up to the quote that ends a literal, and gives the text behind it as well. A
control character can only be escaped.
-/
def readUnits : List Char → Option (List Nat × List Char)
  | [] => none
  | '"' :: behind => some ([], behind)
  | '\\' :: 'u' :: a :: b :: c :: d :: rest => do
      let unit ← Yaml.hexValue? [a, b, c, d]
      let (later, behind) ← readUnits rest
      return (unit :: later, behind)
  | '\\' :: letter :: rest => do
      let c ← letterEscape? letter
      let (later, behind) ← readUnits rest
      return (units c ++ later, behind)
  | c :: rest =>
      if c = '\\' ∨ c.toNat < 0x20 then none
      else do
        let (later, behind) ← readUnits rest
        return (units c ++ later, behind)

/-- The characters of code units. A surrogate counts in a pair only. -/
def ofUnits : List Nat → Option (List Char)
  | [] => some []
  | unit :: rest =>
      if unit < 0xd800 ∨ 0xe000 ≤ unit then (ofUnits rest).map (Char.ofNat unit :: ·)
      else
        match rest with
        | [] => none
        | low :: later =>
            if unit < 0xdc00 ∧ 0xdc00 ≤ low ∧ low < 0xe000 then
              (ofUnits later).map
                (Char.ofNat (0x10000 + ((unit - 0xd800) * 0x400 + (low - 0xdc00))) :: ·)
            else none

/-- Reads a literal with its quotes, and gives the text behind it as well. -/
def read : List Char → Option (List Char × List Char)
  | '"' :: inside => do
      let (units, behind) ← readUnits inside
      return (← ofUnits units, behind)
  | _ => none

-----------------------------------------------------------------------------------------
-- Characters of code units
-----------------------------------------------------------------------------------------

/-- A character is no surrogate and has a number below the end of all planes. -/
theorem toNat_range (c : Char) : c.toNat < 0xd800 ∨ 0xe000 ≤ c.toNat ∧ c.toNat < 0x110000 := by
  have valid := c.valid
  simp only [UInt32.isValidChar, Nat.isValidChar] at valid
  simp only [Char.toNat]
  omega

theorem ofUnits_single {unit : Nat} (single : unit < 0xd800 ∨ 0xe000 ≤ unit) (rest : List Nat)
    : ofUnits (unit :: rest) = (ofUnits rest).map (Char.ofNat unit :: ·) := by
  rw [ofUnits.eq_def]
  exact if_pos single

theorem ofUnits_pair {high low : Nat} (above : high < 0x400) (below : low < 0x400) (rest : List Nat)
    : ofUnits ((0xd800 + high) :: (0xdc00 + low) :: rest)
      = (ofUnits rest).map (Char.ofNat (0x10000 + (high * 0x400 + low)) :: ·) := by
  have surrogate : ¬ (0xd800 + high < 0xd800 ∨ 0xe000 ≤ 0xd800 + high) := by
    omega
  have pair : 0xd800 + high < 0xdc00 ∧ 0xdc00 ≤ 0xdc00 + low ∧ 0xdc00 + low < 0xe000 := by
    omega
  rw [ofUnits.eq_def]
  simp only [if_neg surrogate, if_pos pair, Nat.add_sub_cancel_left]

/-- The code units of a character are read as the character, those of an upper plane as a pair. -/
theorem ofUnits_units (c : Char) (rest : List Nat)
    : ofUnits (units c ++ rest) = (ofUnits rest).map (c :: ·) := by
  have range := toNat_range c
  unfold units
  split
  · rw [List.singleton_append, ofUnits_single (range.imp_right And.left), Char.ofNat_toNat]
  · have number
        : 0x10000 + ((c.toNat - 0x10000) / 0x400 * 0x400 + (c.toNat - 0x10000) % 0x400)
          = c.toNat := by
      omega
    have high : (c.toNat - 0x10000) / 0x400 < 0x400 := by
      omega
    have low : (c.toNat - 0x10000) % 0x400 < 0x400 := by
      omega
    rw [List.cons_append, List.singleton_append, ofUnits_pair high low, number, Char.ofNat_toNat]

theorem ofUnits_flatMap (s : List Char) : ofUnits (s.flatMap units) = some s := by
  induction s with
  | nil => rfl
  | cons c rest ih => rw [List.flatMap_cons, ofUnits_units, ih, Option.map_some]

-----------------------------------------------------------------------------------------
-- Code units of escapes
-----------------------------------------------------------------------------------------

theorem hexDigit?_digit : ∀ n < 16, Yaml.hexDigit? (Hex.digit n) = some n := by
  decide

/-- Four hexadecimal digits are read as the number that they show. -/
theorem hexValue?_digits {n : Nat} (small : n < 0x10000)
    : Yaml.hexValue?
          [
            Hex.digit (n / 4096 % 16), Hex.digit (n / 256 % 16), Hex.digit (n / 16 % 16),
            Hex.digit (n % 16)
          ]
        = some n := by
  have digit (m : Nat) : Yaml.hexDigit? (Hex.digit (m % 16)) = some (m % 16) :=
    hexDigit?_digit _ (Nat.mod_lt m (by decide))
  simp only [Yaml.hexValue?, List.foldlM_cons, List.foldlM_nil, digit, Option.map_some]
  change some _ = some n
  refine congrArg some ?_
  omega

/-- The escape of a code unit is read as the unit. -/
theorem readUnits_unitEscape {n : Nat} (small : n < 0x10000) (rest : List Char)
    : readUnits (unitEscape n ++ rest)
      = (readUnits rest).map fun read => (n :: read.1, read.2) := by
  simp only [unitEscape, List.cons_append, List.nil_append, readUnits, hexValue?_digits small]
  cases readUnits rest <;> rfl

/-- A character that is no control character stands for itself, but for the quote and the backslash.
-/
theorem readUnits_plain {c : Char} (quote : c ≠ '"') (backslash : c ≠ '\\') (shown : 0x20 ≤ c.toNat)
    (rest : List Char)
    : readUnits (c :: rest)
      = (readUnits rest).map fun read => (units c ++ read.1, read.2) := by
  have plain : ¬ (c = '\\' ∨ c.toNat < 0x20) := by
    rintro (same | control)
    · exact backslash same
    · exact Nat.not_lt.mpr shown control
  rw [readUnits, if_neg plain]
  · cases readUnits rest <;> rfl
  · exact quote
  · rintro _ _ _ _ _ rfl
    exact absurd rfl backslash
  · rintro _ _ rfl
    exact absurd rfl backslash

/-- A backslash and a letter are read as the character that they stand for. -/
theorem readUnits_letter {letter c : Char} (known : letterEscape? letter = some c)
    (other : letter ≠ 'u') (rest : List Char)
    : readUnits ('\\' :: letter :: rest)
      = (readUnits rest).map fun read => (units c ++ read.1, read.2) := by
  rw [readUnits, known]
  · cases readUnits rest <;> rfl
  · rintro _ _ _ _ _ rfl
    exact absurd rfl other

/-- What stands for a character: a letter behind a backslash, the character itself, or its code
units.
-/
theorem escape_cases (c : Char)
    : (∃ letter, letterEscape? letter = some c ∧ letter ≠ 'u' ∧ escape c = ['\\', letter])
      ∨ (c ≠ '"' ∧ c ≠ '\\' ∧ 0x20 ≤ c.toNat ∧ c.toNat ≤ 0x7e ∧ escape c = [c])
      ∨ (∃ unit < 0x10000, units c = [unit] ∧ escape c = unitEscape unit)
      ∨ ∃ high < 0x10000, ∃ low < 0x10000,
          units c = [high, low] ∧ escape c = unitEscape high ++ unitEscape low := by
  have letter {d letter : Char} (same : c = d) (known : letterEscape? letter = some d)
      (other : letter ≠ 'u') (written : escape d = ['\\', letter])
      : ∃ letter, letterEscape? letter = some c ∧ letter ≠ 'u' ∧ escape c = ['\\', letter] :=
    same ▸ ⟨letter, known, other, written⟩
  by_cases quote : c = '"'
  · exact .inl (letter quote rfl (by decide) rfl)
  by_cases backslash : c = '\\'
  · exact .inl (letter backslash rfl (by decide) rfl)
  by_cases newline : c = '\n'
  · exact .inl (letter newline rfl (by decide) rfl)
  by_cases carriageReturn : c = '\r'
  · exact .inl (letter carriageReturn rfl (by decide) rfl)
  by_cases tab : c = '\t'
  · exact .inl (letter tab rfl (by decide) rfl)
  by_cases backspace : c = '\x08'
  · exact .inl (letter backspace rfl (by decide) rfl)
  by_cases formFeed : c = '\x0c'
  · exact .inl (letter formFeed rfl (by decide) rfl)
  rw [escape, if_neg quote, if_neg backslash, if_neg newline, if_neg carriageReturn, if_neg tab,
    if_neg backspace, if_neg formFeed, units]
  right
  split
  · next shown => exact .inl ⟨quote, backslash, shown.1, shown.2, rfl⟩
  right
  split
  · next small => exact .inl ⟨_, small, rfl, rfl⟩
  · have range := toNat_range c
    exact .inr ⟨_, by omega, _, by omega, rfl, rfl⟩

/-- What stands for a character in a literal is read as the code units of the character, by cases on
the escape.
-/
theorem readUnits_escape (c : Char) (rest : List Char)
    : readUnits (escape c ++ rest)
      = (readUnits rest).map fun read => (units c ++ read.1, read.2) := by
  rcases escape_cases c with
    ⟨letter, known, other, written⟩ | ⟨quote, backslash, shown, _, written⟩
    | ⟨unit, small, encoded, written⟩ | ⟨high, small, low, small', encoded, written⟩
  · rw [written]
    exact readUnits_letter known other rest
  · rw [written]
    exact readUnits_plain quote backslash shown rest
  · rw [written, readUnits_unitEscape small, encoded]
    rfl
  · rw [written, List.append_assoc, readUnits_unitEscape small, readUnits_unitEscape small', encoded,
      Option.map_map]
    rfl

/-- The inside of a literal is read as the code units of the text, up to the quote that ends it. -/
theorem readUnits_flatMap (s behind : List Char)
    : readUnits (s.flatMap escape ++ '"' :: behind) = some (s.flatMap units, behind) := by
  induction s with
  | nil => simp [readUnits]
  | cons c rest ih =>
      rw [List.flatMap_cons, List.append_assoc, readUnits_escape, ih, Option.map_some,
        List.flatMap_cons]

/-- A literal is read as the text that it was made from, and nothing behind it is read. -/
theorem read_encode (s behind : List Char) : read (encode s ++ behind) = some (s, behind) := by
  have literal : encode s ++ behind = '"' :: (s.flatMap escape ++ '"' :: behind) := by
    simp [encode]
  rw [literal, read, readUnits_flatMap]
  simp [ofUnits_flatMap]

-----------------------------------------------------------------------------------------
-- The characters of a literal
-----------------------------------------------------------------------------------------

/-- A printable character of ASCII. -/
def IsPrintable (c : Char) : Prop :=
  0x20 ≤ c.toNat ∧ c.toNat ≤ 0x7e

instance (c : Char) : Decidable (IsPrintable c) :=
  inferInstanceAs (Decidable (_ ∧ _))

theorem isPrintable_digit (n : Nat) : IsPrintable (Hex.digit (n % 16)) := by
  have all : ∀ n < 16, IsPrintable (Hex.digit n) := by
    decide
  exact all _ (Nat.mod_lt n (by decide))

theorem isPrintable_unitEscape {n : Nat} {c : Char} (member : c ∈ unitEscape n) : IsPrintable c := by
  simp only [unitEscape, List.mem_cons, List.not_mem_nil, or_false] at member
  rcases member with rfl | rfl | rfl | rfl | rfl | rfl
  · decide
  · decide
  · exact isPrintable_digit _
  · exact isPrintable_digit _
  · exact isPrintable_digit _
  · exact isPrintable_digit _

theorem isPrintable_letter {letter c : Char} (known : letterEscape? letter = some c)
    : IsPrintable letter := by
  unfold letterEscape? at known
  split at known <;> first | decide | cases known

/-- A literal consists of printable characters of ASCII only. -/
theorem isPrintable_encode {s : List Char} {c : Char} (member : c ∈ encode s) : IsPrintable c := by
  have quote : IsPrintable '"' := by
    decide
  simp only [encode, List.mem_cons, List.mem_append, List.mem_flatMap, List.not_mem_nil, or_false]
    at member
  rcases member with rfl | ⟨d, _, written⟩ | rfl
  · exact quote
  · rcases escape_cases d with
      ⟨letter, known, _, same⟩ | ⟨_, _, low, high, same⟩ | ⟨unit, _, _, same⟩
      | ⟨high, _, low, _, _, same⟩
    · simp only [same, List.mem_cons, List.not_mem_nil, or_false] at written
      rcases written with rfl | rfl
      · decide
      · exact isPrintable_letter known
    · rw [same] at written
      exact List.mem_singleton.mp written ▸ ⟨low, high⟩
    · exact isPrintable_unitEscape (same ▸ written)
    · rw [same] at written
      exact (List.mem_append.mp written).elim isPrintable_unitEscape isPrintable_unitEscape
  · exact quote

end JsxProvenance.JsonString
