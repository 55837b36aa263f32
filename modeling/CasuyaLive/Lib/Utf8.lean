/-
  CasuyaLive.Lib.Utf8 — every text is read back from its UTF-8 bytes (`runes_utf8`).
  `decodeRune_utf8`: the character in front of a text is the one that was written, by the
  number of its bytes.
-/

import CasuyaLive.Lib.Text

namespace CasuyaLive.Lib.Text

theorem toNat_ofNat_byte {n : Nat} (h : n < 256) : (UInt8.ofNat n).toNat = n := by
  rw [UInt8.toNat_ofNat']
  omega

theorem isTail_ofNat {n : Nat} (h : n < 64) : isTail (UInt8.ofNat (n + 0x80)) = true := by
  have hb := toNat_ofNat_byte (n := n + 0x80) (by omega)
  simp only [isTail, Bool.and_eq_true, decide_eq_true_eq, UInt8.le_iff_toNat_le, hb, UInt8.reduceToNat]
  omega

theorem ofNat_eq_iff {n k : Nat} (h : n < 256) (hk : k < 256) : UInt8.ofNat n = UInt8.ofNat k ↔ n = k := by
  rw [← UInt8.toNat_inj, toNat_ofNat_byte h, toNat_ofNat_byte hk]

/-! ## One character -/

section

variable {n : Nat} (bs : List UInt8)

theorem last_tail : isTail (UInt8.ofNat (n % 0x40 + 0x80)) = true := isTail_ofNat (Nat.mod_lt n (by decide))

theorem decodeRune_one (h : n ≤ 0x7f) : decodeRune (UInt8.ofNat n :: bs) = (Char.ofNat n, 1) := by
  have hn : (UInt8.ofNat n).toNat = n := toNat_ofNat_byte (by omega)
  have hlt : UInt8.ofNat n < 0x80 := UInt8.lt_iff_toNat_lt.mpr (by rw [hn]; exact Nat.lt_succ_of_le h)
  rw [decodeRune, if_pos hlt, hn]

theorem decodeRune_two (hlo : 0x7f < n) (hhi : n ≤ 0x7ff) :
    decodeRune (UInt8.ofNat (n / 64 % 0x20 + 0xc0) :: UInt8.ofNat (n % 0x40 + 0x80) :: bs) = (Char.ofNat n, 2) := by
  have hsum : (n / 64 % 0x20 + 0xc0) % 32 * 64 + (n % 0x40 + 0x80) % 64 = n := by omega
  simp only [decodeRune, List.getD_cons_zero, UInt8.lt_iff_toNat_lt, UInt8.le_iff_toNat_le, last_tail, UInt8.reduceToNat]
  rw [toNat_ofNat_byte (by omega), toNat_ofNat_byte (by omega), if_neg (by omega), if_pos ⟨by omega, by omega, trivial⟩, hsum]

theorem decodeRune_three (hlo : 0x7ff < n) (hhi : n ≤ 0xffff) (hv : n < 0xD800 ∨ 0xDFFF < n) :
    decodeRune (UInt8.ofNat (n / 4096 % 0x10 + 0xe0) :: UInt8.ofNat (n / 64 % 0x40 + 0x80) :: UInt8.ofNat (n % 0x40 + 0x80) :: bs) =
      (Char.ofNat n, 3) := by
  have hsum : (n / 4096 % 0x10 + 0xe0) % 16 * 4096 + (n / 64 % 0x40 + 0x80) % 64 * 64 + (n % 0x40 + 0x80) % 64 = n := by omega
  have he0 : UInt8.ofNat (n / 4096 % 0x10 + 0xe0) = 0xE0 ↔ n / 4096 % 0x10 + 0xe0 = 0xE0 := ofNat_eq_iff (by omega) (by decide)
  have hed : UInt8.ofNat (n / 4096 % 0x10 + 0xe0) = 0xED ↔ n / 4096 % 0x10 + 0xe0 = 0xED := ofNat_eq_iff (by omega) (by decide)
  simp only [decodeRune, List.getD_cons_zero, List.getD_cons_succ, UInt8.lt_iff_toNat_lt, UInt8.le_iff_toNat_le, last_tail, he0, hed,
    UInt8.reduceToNat]
  rw [toNat_ofNat_byte (by omega), toNat_ofNat_byte (by omega), toNat_ofNat_byte (by omega), if_neg (by omega), if_neg (by omega),
    if_pos ⟨by omega, by omega, by omega, by omega, trivial, trivial⟩, hsum]

theorem decodeRune_four (hlo : 0xffff < n) (hhi : n < 0x110000) :
    decodeRune (UInt8.ofNat (n / 262144 % 0x08 + 0xf0) :: UInt8.ofNat (n / 4096 % 0x40 + 0x80) ::
      UInt8.ofNat (n / 64 % 0x40 + 0x80) :: UInt8.ofNat (n % 0x40 + 0x80) :: bs) = (Char.ofNat n, 4) := by
  have hsum : (n / 262144 % 0x08 + 0xf0) % 8 * 262144 + (n / 4096 % 0x40 + 0x80) % 64 * 4096 +
      (n / 64 % 0x40 + 0x80) % 64 * 64 + (n % 0x40 + 0x80) % 64 = n := by omega
  have hf0 : UInt8.ofNat (n / 262144 % 0x08 + 0xf0) = 0xF0 ↔ n / 262144 % 0x08 + 0xf0 = 0xF0 := ofNat_eq_iff (by omega) (by decide)
  have hf4 : UInt8.ofNat (n / 262144 % 0x08 + 0xf0) = 0xF4 ↔ n / 262144 % 0x08 + 0xf0 = 0xF4 := ofNat_eq_iff (by omega) (by decide)
  simp only [decodeRune, List.getD_cons_zero, List.getD_cons_succ, UInt8.lt_iff_toNat_lt, UInt8.le_iff_toNat_le, last_tail, hf0, hf4,
    UInt8.reduceToNat]
  rw [toNat_ofNat_byte (by omega), toNat_ofNat_byte (by omega), toNat_ofNat_byte (by omega), toNat_ofNat_byte (by omega),
    if_neg (by omega), if_neg (by omega), if_neg (by omega),
    if_pos ⟨by omega, by omega, by omega, by omega, trivial, trivial, trivial⟩, hsum]

end

theorem utf8EncodeChar_toNat (c : Char) : String.utf8EncodeChar c =
    if c.toNat ≤ 0x7f then [UInt8.ofNat c.toNat]
    else if c.toNat ≤ 0x7ff then [UInt8.ofNat (c.toNat / 64 % 0x20 + 0xc0), UInt8.ofNat (c.toNat % 0x40 + 0x80)]
    else if c.toNat ≤ 0xffff then
      [UInt8.ofNat (c.toNat / 4096 % 0x10 + 0xe0), UInt8.ofNat (c.toNat / 64 % 0x40 + 0x80), UInt8.ofNat (c.toNat % 0x40 + 0x80)]
    else
      [UInt8.ofNat (c.toNat / 262144 % 0x08 + 0xf0), UInt8.ofNat (c.toNat / 4096 % 0x40 + 0x80),
        UInt8.ofNat (c.toNat / 64 % 0x40 + 0x80), UInt8.ofNat (c.toNat % 0x40 + 0x80)] := rfl

/-- The character in front of a text is the one that was written, whatever follows. -/
theorem decodeRune_utf8 (c : Char) (bs : List UInt8) :
    decodeRune (String.utf8EncodeChar c ++ bs) = (c, (String.utf8EncodeChar c).length) := by
  have hv : c.toNat < 0xD800 ∨ (0xDFFF < c.toNat ∧ c.toNat < 0x110000) := c.valid
  rw [utf8EncodeChar_toNat]
  by_cases h1 : c.toNat ≤ 0x7f
  · rw [if_pos h1]
    exact (decodeRune_one bs h1).trans (by rw [Char.ofNat_toNat]; rfl)
  by_cases h2 : c.toNat ≤ 0x7ff
  · rw [if_neg h1, if_pos h2]
    exact (decodeRune_two bs (by omega) h2).trans (by rw [Char.ofNat_toNat]; rfl)
  by_cases h3 : c.toNat ≤ 0xffff
  · rw [if_neg h1, if_neg h2, if_pos h3]
    exact (decodeRune_three bs (by omega) h3 (by omega)).trans (by rw [Char.ofNat_toNat]; rfl)
  · rw [if_neg h1, if_neg h2, if_neg h3]
    exact (decodeRune_four bs (by omega) (by omega)).trans (by rw [Char.ofNat_toNat]; rfl)

/-! ## A text -/

theorem runesIn_utf8 (cs : List Char) (n : Nat) (h : (utf8 cs).length ≤ n) : runesIn n (utf8 cs) = cs := by
  induction cs generalizing n with
  | nil => cases n <;> rfl
  | cons c cs ih =>
    rw [utf8, List.flatMap_cons, ← utf8] at h ⊢
    have hrune := decodeRune_utf8 c (utf8 cs)
    have hpos : 0 < (String.utf8EncodeChar c).length := String.length_utf8EncodeChar c ▸ c.utf8Size_pos
    obtain ⟨b, rest, hb⟩ := List.exists_cons_of_length_pos hpos
    rw [List.length_append] at h
    cases n with
    | zero => omega
    | succ n =>
      have hdrop : (String.utf8EncodeChar c ++ utf8 cs).drop (String.utf8EncodeChar c).length = utf8 cs := List.drop_left
      rw [hb, List.cons_append] at hrune hdrop ⊢
      rw [runesIn, hrune, hdrop, ih n (by omega)]

/-- What was written is read back. -/
theorem runes_utf8 (cs : List Char) : runes (utf8 cs) = cs := runesIn_utf8 cs _ (le_refl _)

end CasuyaLive.Lib.Text
