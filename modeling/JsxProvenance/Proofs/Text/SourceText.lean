import JsxProvenance.Text.SourceText
import Mathlib.Data.List.Basic

/-! Reading a source text and writing it back. A character that is read has the bytes that it was
read from, since these are its shortest form, and other bytes are kept, so every byte of a file
comes back.
-/

namespace JsxProvenance

namespace Utf8

-----------------------------------------------------------------------------------------
-- Characters
-----------------------------------------------------------------------------------------

theorem val_ofNat {value : Nat} (proper : value.isValidChar)
    : (Char.ofNat value).val.toNat = value := by
  rw [Char.ofNat, dif_pos proper]
  rfl

theorem encodeChar_one {b : UInt8} (small : b.toNat < 0x80)
    : String.utf8EncodeChar (Char.ofNat b.toNat) = [b] := by
  have proper : b.toNat.isValidChar := Or.inl (by omega)
  rw [String.utf8EncodeChar, val_ofNat proper, if_pos (by omega), UInt8.ofNat_toNat]

theorem encodeChar_two {b₀ b₁ : UInt8} (first : 0xc2 ≤ b₀.toNat ∧ b₀.toNat < 0xe0)
    (second : 0x80 ≤ b₁.toNat ∧ b₁.toNat ≤ 0xbf)
    : String.utf8EncodeChar (Char.ofNat ((b₀.toNat - 0xc0) * 64 + (b₁.toNat - 0x80)))
      = [b₀, b₁] := by
  have proper : ((b₀.toNat - 0xc0) * 64 + (b₁.toNat - 0x80)).isValidChar := Or.inl (by omega)
  rw [String.utf8EncodeChar, val_ofNat proper, if_neg (by omega), if_pos (by omega)]
  simp only [List.cons.injEq, and_true, ← UInt8.toNat_inj, UInt8.toNat_ofNat']
  omega

theorem encodeChar_three {b₀ b₁ b₂ : UInt8} (first : 0xe0 ≤ b₀.toNat ∧ b₀.toNat < 0xf0)
    (second : (if b₀.toNat = 0xe0 then 0xa0 else 0x80) ≤ b₁.toNat
      ∧ b₁.toNat ≤ (if b₀.toNat = 0xed then 0x9f else 0xbf))
    (third : 0x80 ≤ b₂.toNat ∧ b₂.toNat ≤ 0xbf)
    : String.utf8EncodeChar (Char.ofNat
          (((b₀.toNat - 0xe0) * 64 + (b₁.toNat - 0x80)) * 64 + (b₂.toNat - 0x80)))
      = [b₀, b₁, b₂] := by
  have proper
      : (((b₀.toNat - 0xe0) * 64 + (b₁.toNat - 0x80)) * 64 + (b₂.toNat - 0x80)).isValidChar := by
    simp only [Nat.isValidChar]
    split at second <;> split at second <;> omega
  have large : 0x7ff < ((b₀.toNat - 0xe0) * 64 + (b₁.toNat - 0x80)) * 64 + (b₂.toNat - 0x80) := by
    split at second <;> split at second <;> omega
  have above : 0x80 ≤ b₁.toNat ∧ b₁.toNat ≤ 0xbf := by
    split at second <;> split at second <;> omega
  rw [String.utf8EncodeChar, val_ofNat proper, if_neg (by omega), if_neg (by omega),
    if_pos (by omega)]
  simp only [List.cons.injEq, and_true, ← UInt8.toNat_inj, UInt8.toNat_ofNat']
  omega

theorem encodeChar_four {b₀ b₁ b₂ b₃ : UInt8} (first : 0xf0 ≤ b₀.toNat ∧ b₀.toNat < 0xf5)
    (second : (if b₀.toNat = 0xf0 then 0x90 else 0x80) ≤ b₁.toNat
      ∧ b₁.toNat ≤ (if b₀.toNat = 0xf4 then 0x8f else 0xbf))
    (third : 0x80 ≤ b₂.toNat ∧ b₂.toNat ≤ 0xbf) (fourth : 0x80 ≤ b₃.toNat ∧ b₃.toNat ≤ 0xbf)
    : String.utf8EncodeChar (Char.ofNat
          ((((b₀.toNat - 0xf0) * 64 + (b₁.toNat - 0x80)) * 64 + (b₂.toNat - 0x80)) * 64
            + (b₃.toNat - 0x80)))
      = [b₀, b₁, b₂, b₃] := by
  have large
      : 0xffff < (((b₀.toNat - 0xf0) * 64 + (b₁.toNat - 0x80)) * 64 + (b₂.toNat - 0x80)) * 64
          + (b₃.toNat - 0x80) := by
    split at second <;> split at second <;> omega
  have small
      : (((b₀.toNat - 0xf0) * 64 + (b₁.toNat - 0x80)) * 64 + (b₂.toNat - 0x80)) * 64
          + (b₃.toNat - 0x80) < 0x110000 := by
    split at second <;> split at second <;> omega
  have above : 0x80 ≤ b₁.toNat ∧ b₁.toNat ≤ 0xbf := by
    split at second <;> split at second <;> omega
  rw [String.utf8EncodeChar, val_ofNat (Or.inr ⟨by omega, small⟩), if_neg (by omega),
    if_neg (by omega), if_neg (by omega)]
  simp only [List.cons.injEq, and_true, ← UInt8.toNat_inj, UInt8.toNat_ofNat']
  omega

-----------------------------------------------------------------------------------------
-- The front of a byte sequence
-----------------------------------------------------------------------------------------

/-- A character that is still owed bytes is followed by one in the bounds. -/
theorem exists_of_follow_succ {owed low high value length total : Nat} {bytes : List UInt8}
    {c : Char} (h : follow (owed + 1) low high value length bytes = .char c total)
    : ∃ b rest,
        bytes = b :: rest
        ∧ (low ≤ b.toNat ∧ b.toNat ≤ high)
        ∧ follow owed 0x80 0xbf (value * 64 + (b.toNat - 0x80)) (length + 1) rest
          = .char c total := by
  cases bytes with
  | nil => cases h
  | cons b rest =>
      rw [follow] at h
      split at h
      · next inside => exact ⟨b, rest, rfl, inside, h⟩
      · cases h

/-- A character at the front has the bytes that it was read from, by cases on the start byte. -/
theorem encodeChar_of_front {b : UInt8} {rest : List UInt8} {c : Char} {length : Nat}
    (h : front b rest = .char c length)
    : String.utf8EncodeChar c = (b :: rest).take length ∧ 0 < length := by
  unfold front shape at h
  split at h
  · next owed low high value shaped =>
      split at shaped
      · next small =>
          cases shaped
          cases h
          exact ⟨encodeChar_one small, Nat.one_pos⟩
      · split at shaped
        · cases shaped
        · split at shaped
          · cases shaped
            obtain ⟨b₁, rest, rfl, second, h⟩ := exists_of_follow_succ h
            obtain ⟨rfl, rfl⟩ := Front.char.inj h
            exact ⟨encodeChar_two (by omega) second, by omega⟩
          · split at shaped
            · cases shaped
              obtain ⟨b₁, rest, rfl, second, h⟩ := exists_of_follow_succ h
              obtain ⟨b₂, rest, rfl, third, h⟩ := exists_of_follow_succ h
              obtain ⟨rfl, rfl⟩ := Front.char.inj h
              exact ⟨encodeChar_three (by omega) second third, by omega⟩
            · split at shaped
              · cases shaped
                obtain ⟨b₁, rest, rfl, second, h⟩ := exists_of_follow_succ h
                obtain ⟨b₂, rest, rfl, third, h⟩ := exists_of_follow_succ h
                obtain ⟨b₃, rest, rfl, fourth, h⟩ := exists_of_follow_succ h
                obtain ⟨rfl, rfl⟩ := Front.char.inj h
                exact ⟨encodeChar_four (by omega) second third fourth, by omega⟩
              · cases shaped
  · cases h

/-- A broken part has a byte, by induction over the bytes that are owed. -/
theorem follow_broken_pos {owed low high value length total : Nat} {bytes : List UInt8}
    {fault : Fault} (start : 0 < length)
    (h : follow owed low high value length bytes = .broken fault total)
    : 0 < total := by
  induction owed generalizing low high value length bytes with
  | zero => cases h
  | succ owed ih =>
      cases bytes with
      | nil =>
          cases h
          exact start
      | cons b rest =>
          rw [follow] at h
          split at h
          · exact ih (Nat.succ_pos length) h
          · cases h
            exact start

theorem front_broken_pos {b : UInt8} {rest : List UInt8} {fault : Fault} {length : Nat}
    (h : front b rest = .broken fault length)
    : 0 < length := by
  unfold front at h
  split at h
  · exact follow_broken_pos Nat.one_pos h
  · cases h
    exact Nat.one_pos

end Utf8

-----------------------------------------------------------------------------------------
-- Whole texts
-----------------------------------------------------------------------------------------

namespace SourceText

@[simp]
theorem encode_append (first second : List Sign)
    : encode (first ++ second) = encode first ++ encode second :=
  List.flatMap_append

theorem encode_map_byte (bytes : List UInt8) : encode (bytes.map .byte) = bytes := by
  induction bytes with
  | nil => rfl
  | cons b rest ih =>
      rw [List.map_cons, ← List.singleton_append, encode_append, ih]
      rfl

/-- What is read after some bytes is written as the bytes after them, by induction over the
bytes.
-/
theorem encode_decodeFrom (skip : Nat) (bytes : List UInt8)
    : encode (decodeFrom skip bytes) = bytes.drop skip := by
  induction bytes generalizing skip with
  | nil => simp [decodeFrom, encode]
  | cons b rest ih =>
      cases skip with
      | succ skip => rw [decodeFrom, ih, List.drop_succ_cons]
      | zero =>
          have whole (length : Nat) (pos : 0 < length)
              : (b :: rest).take length ++ rest.drop (length - 1) = b :: rest := by
            obtain ⟨k, rfl⟩ := Nat.exists_eq_succ_of_ne_zero (Nat.pos_iff_ne_zero.mp pos)
            rw [List.take_succ_cons, Nat.succ_sub_one, List.cons_append, List.take_append_drop]
          rw [decodeFrom, List.drop_zero]
          cases front : Utf8.front b rest with
          | char c length =>
              obtain ⟨shortest, pos⟩ := Utf8.encodeChar_of_front front
              change String.utf8EncodeChar c ++ encode (decodeFrom (length - 1) rest) = b :: rest
              rw [ih, shortest, whole length pos]
          | broken fault length =>
              simp only [encode_append, encode_map_byte, ih]
              exact whole length (Utf8.front_broken_pos front)

/-- A text that was read is written as it was. -/
@[simp]
theorem encode_decode (bytes : List UInt8) : encode (decode bytes) = bytes := by
  rw [decode, encode_decodeFrom, List.drop_zero]

end SourceText
end JsxProvenance
