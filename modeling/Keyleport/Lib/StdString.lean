import Mathlib.Data.List.Basic
import Mathlib.Order.Defs.LinearOrder

/-!
# Byte strings

`std::string` holds bytes, in no particular encoding. `StdString.ValidUtf8` says that the bytes
are the UTF-8 encoding of a sequence of Unicode scalar values. The order on byte strings is the
lexicographic one of `std::less<std::string>`, which is the order of `List UInt8`.
-/

/-- A `std::string`: a sequence of bytes. -/
abbrev StdString := List UInt8

namespace StdString

/-- The bytes of a string literal. -/
def ofString (s : String) : StdString := s.toByteArray.data.toList

/-- The bytes are well-formed UTF-8. -/
def ValidUtf8 (s : StdString) : Prop := ByteArray.IsValidUTF8 ⟨s.toArray⟩

instance (s : StdString) : Decidable s.ValidUtf8 :=
  inferInstanceAs (Decidable (ByteArray.IsValidUTF8 _))

/-- Well-formed UTF-8 is a concatenation of encoded characters. -/
theorem validUtf8_iff {s : StdString} :
    s.ValidUtf8 ↔ ∃ cs : List Char, s = cs.flatMap String.utf8EncodeChar := by
  have hbytes (cs : List Char) :
      (⟨s.toArray⟩ : ByteArray) = cs.utf8Encode ↔ s = cs.flatMap String.utf8EncodeChar := by
    rw [List.utf8Encode, ByteArray.ext_iff, ← Array.toList_inj]
    simp
  constructor
  · rintro ⟨cs, h⟩
    exact ⟨cs, (hbytes cs).1 h⟩
  · rintro ⟨cs, h⟩
    exact ⟨cs, (hbytes cs).2 h⟩

theorem validUtf8_nil : ValidUtf8 [] := validUtf8_iff.2 ⟨[], rfl⟩

theorem ValidUtf8.append {s t : StdString} (hs : s.ValidUtf8) (ht : t.ValidUtf8) :
    ValidUtf8 (s ++ t) := by
  obtain ⟨cs, rfl⟩ := validUtf8_iff.1 hs
  obtain ⟨ds, rfl⟩ := validUtf8_iff.1 ht
  exact validUtf8_iff.2 ⟨cs ++ ds, List.flatMap_append.symm⟩

/-- A byte below 128 is the encoding of a character by itself. -/
private theorem utf8EncodeChar_eq_singleton {c : Char} {b : UInt8} (hb : b < 0x80)
    (h : b ∈ String.utf8EncodeChar c) : String.utf8EncodeChar c = [b] := by
  have hlow : ∀ n, 0x80 ≤ n → n < 0x100 → b ≠ UInt8.ofNat n := by
    rintro n hn hn' rfl
    rw [UInt8.lt_iff_toNat_lt, UInt8.toNat_ofNat_of_lt' hn'] at hb
    exact absurd hn (Nat.not_le.2 hb)
  revert h
  unfold String.utf8EncodeChar
  simp only
  split_ifs
  · exact fun h => by rw [List.mem_singleton.1 h]
  -- the bytes of a longer encoding are all at least 128
  all_goals
    intro h
    simp only [List.mem_cons, List.not_mem_nil, or_false] at h
  · rcases h with h | h
    · exact absurd h (hlow _ (by omega) (by omega))
    · exact absurd h (hlow _ (by omega) (by omega))
  · rcases h with h | h | h
    · exact absurd h (hlow _ (by omega) (by omega))
    · exact absurd h (hlow _ (by omega) (by omega))
    · exact absurd h (hlow _ (by omega) (by omega))
  · rcases h with h | h | h | h
    · exact absurd h (hlow _ (by omega) (by omega))
    · exact absurd h (hlow _ (by omega) (by omega))
    · exact absurd h (hlow _ (by omega) (by omega))
    · exact absurd h (hlow _ (by omega) (by omega))

theorem validUtf8_utf8EncodeChar (c : Char) : ValidUtf8 (String.utf8EncodeChar c) :=
  validUtf8_iff.2 ⟨[c], (List.flatMap_singleton _ _).symm⟩

/-- Text is UTF-8 when what stands before a byte below 128 and what stands after it are. -/
theorem validUtf8_append_cons_iff {s t : StdString} {b : UInt8} (hb : b < 0x80) :
    ValidUtf8 (s ++ b :: t) ↔ s.ValidUtf8 ∧ t.ValidUtf8 := by
  constructor
  · intro h
    obtain ⟨cs, hcs⟩ := validUtf8_iff.1 h
    clear h
    induction cs generalizing s with
    | nil => simp at hcs
    | cons c cs ih =>
      rw [List.flatMap_cons] at hcs
      rcases List.append_eq_append_iff.1 hcs with ⟨u, hc, hrest⟩ | ⟨u, hs, hrest⟩
      · cases u with
        | nil =>
          -- the character ends where `s` does
          rw [List.append_nil] at hc
          obtain ⟨-, ht⟩ := @ih [] hrest
          exact ⟨hc ▸ validUtf8_utf8EncodeChar c, ht⟩
        | cons d u =>
          -- the byte is in the character, and so is the character
          obtain ⟨rfl, rfl⟩ := List.cons.inj hrest
          have hsingle := utf8EncodeChar_eq_singleton hb
            (hc ▸ List.mem_append_right s List.mem_cons_self)
          rw [hsingle] at hc
          obtain ⟨rfl, hu⟩ := List.append_eq_singleton_iff.1 hc.symm |>.resolve_right (by simp)
          obtain rfl : u = [] := (List.cons.inj hu).2
          exact ⟨validUtf8_nil, validUtf8_iff.2 ⟨cs, rfl⟩⟩
      · -- the character is a part of `s`
        obtain ⟨hu, ht⟩ := ih hrest.symm
        exact ⟨hs ▸ (validUtf8_utf8EncodeChar c).append hu, ht⟩
  · rintro ⟨hs, ht⟩
    have hchar : String.utf8EncodeChar (Char.ofUInt8 b) = [b] := by
      have hle : b.toNat ≤ 0x7f := Nat.lt_succ_iff.1 (UInt8.lt_iff_toNat_lt.1 hb)
      have hval : (Char.ofUInt8 b).val.toNat = b.toNat := rfl
      rw [String.utf8EncodeChar, hval]
      simp only [if_pos hle, UInt8.ofNat_toNat]
    exact hs.append ((hchar ▸ validUtf8_utf8EncodeChar _ : ValidUtf8 [b]).append ht)

/-- Bytes below 128 are UTF-8. -/
theorem validUtf8_of_ascii {s : StdString} (h : ∀ b ∈ s, b < 0x80) : s.ValidUtf8 := by
  induction s with
  | nil => exact validUtf8_nil
  | cons b s ih =>
    obtain ⟨hb, hs⟩ := List.forall_mem_cons.1 h
    exact (validUtf8_append_cons_iff (s := []) hb).2 ⟨validUtf8_nil, ih hs⟩

end StdString
