/-
  CasuyaLive.Lib.Base64 — base64 with either alphabet, padded or not.

  `sextets` cuts bytes into groups of six bits, `bytesOf` puts them together again;
  `bytesOf_sextets`: nothing is lost, whatever the length is modulo 3. An `Alphabet` has a
  digit for every group and reads its own digits back (`value_digit`).
-/

import Mathlib.Data.List.Basic

namespace CasuyaLive.Lib.Base64

/-! ## Groups of six bits -/

def sextets : List UInt8 → List Nat
  | [] => []
  | [a] => [a.toNat / 4, a.toNat % 4 * 16]
  | [a, b] => [a.toNat / 4, a.toNat % 4 * 16 + b.toNat / 16, b.toNat % 16 * 4]
  | a :: b :: c :: bs =>
    a.toNat / 4 :: (a.toNat % 4 * 16 + b.toNat / 16) :: (b.toNat % 16 * 4 + c.toNat / 64) :: (c.toNat % 64) :: sextets bs

/-- The bytes of the groups; bits that fill no byte are dropped, a single group is none. -/
def bytesOf : List Nat → Option (List UInt8)
  | [] => some []
  | [_] => none
  | [w, x] => some [(w * 4 + x / 16).toUInt8]
  | [w, x, y] => some [(w * 4 + x / 16).toUInt8, (x % 16 * 16 + y / 4).toUInt8]
  | w :: x :: y :: z :: ns => (bytesOf ns).map fun bs =>
    (w * 4 + x / 16).toUInt8 :: (x % 16 * 16 + y / 4).toUInt8 :: (y % 4 * 64 + z).toUInt8 :: bs

theorem byte_eq {n : Nat} (a : UInt8) (h : n = a.toNat) : n.toUInt8 = a := by
  rw [h, Nat.toUInt8_eq, UInt8.ofNat_toNat]

theorem bytesOf_sextets (bs : List UInt8) : bytesOf (sextets bs) = some bs := by
  induction bs using sextets.induct with
  | case1 => rfl
  | case2 a =>
    simp only [sextets, bytesOf]
    rw [byte_eq a (by omega)]
  | case3 a b =>
    have hb := b.toNat_lt
    simp only [sextets, bytesOf]
    rw [byte_eq a (by omega), byte_eq b (by omega)]
  | case4 a b c bs ih =>
    have hb := b.toNat_lt
    have hc := c.toNat_lt
    simp only [sextets, bytesOf, ih, Option.map_some]
    rw [byte_eq a (by omega), byte_eq b (by omega), byte_eq c (by omega)]

theorem sextets_lt (bs : List UInt8) : ∀ n ∈ sextets bs, n < 64 := by
  induction bs using sextets.induct with
  | case1 => nofun
  | case2 a =>
    have ha := a.toNat_lt
    simp only [sextets, List.mem_cons, List.not_mem_nil, or_false, forall_eq_or_imp, forall_eq]
    omega
  | case3 a b =>
    have ha := a.toNat_lt
    have hb := b.toNat_lt
    simp only [sextets, List.mem_cons, List.not_mem_nil, or_false, forall_eq_or_imp, forall_eq]
    omega
  | case4 a b c bs ih =>
    have ha := a.toNat_lt
    have hb := b.toNat_lt
    have hc := c.toNat_lt
    simp only [sextets, List.mem_cons, forall_eq_or_imp]
    exact ⟨by omega, by omega, by omega, by omega, ih⟩

/-- How many pads make the groups whole. -/
def pads (bs : List UInt8) : Nat := (3 - bs.length % 3) % 3

theorem sextets_length (bs : List UInt8) : ((sextets bs).length + pads bs) % 4 = 0 := by
  induction bs using sextets.induct with
  | case1 => rfl
  | case2 a => simp [sextets, pads]
  | case3 a b => simp [sextets, pads]
  | case4 a b c bs ih =>
    have hp : pads (a :: b :: c :: bs) = pads bs := by
      simp only [pads, List.length_cons]
      omega
    simp only [sextets, List.length_cons, hp]
    omega

/-! ## Alphabets -/

structure Alphabet where
  digit : Nat → Char
  value : Char → Option Nat
  value_digit : ∀ n < 64, value (digit n) = some n
  /-- Neither the pad, nor white space, nor a full stop is a digit. -/
  plain : ∀ n < 64, digit n ∉ ['=', '\t', '\n', '\u000C', '\r', ' ', '.']

def digitIn (c62 c63 : Char) (n : Nat) : Char :=
  if n < 26 then Char.ofNat (n + 65)
  else if n < 52 then Char.ofNat (n + 71)
  else if n < 62 then Char.ofNat (n - 4)
  else if n = 62 then c62
  else c63

def valueIn (c62 c63 c : Char) : Option Nat :=
  if 'A' ≤ c ∧ c ≤ 'Z' then some (c.toNat - 65)
  else if 'a' ≤ c ∧ c ≤ 'z' then some (c.toNat - 71)
  else if c.isDigit then some (c.toNat + 4)
  else if c = c62 then some 62
  else if c = c63 then some 63
  else none

def std : Alphabet := ⟨digitIn '+' '/', valueIn '+' '/', by decide +kernel, by decide +kernel⟩
def url : Alphabet := ⟨digitIn '-' '_', valueIn '-' '_', by decide +kernel, by decide +kernel⟩

namespace Alphabet

variable (α : Alphabet)

/-- Without padding. -/
def encodeRaw (bs : List UInt8) : List Char := (sextets bs).map α.digit

def encode (bs : List UInt8) : List Char := α.encodeRaw bs ++ List.replicate (pads bs) '='

def decode (cs : List Char) : Option (List UInt8) := (cs.mapM α.value).bind bytesOf

theorem decode_encodeRaw (bs : List UInt8) : α.decode (α.encodeRaw bs) = some bs := by
  have h : ∀ ns : List Nat, (∀ n ∈ ns, n < 64) → (ns.map α.digit).mapM α.value = some ns := by
    intro ns
    induction ns with
    | nil => intro _; rfl
    | cons n ns ih =>
      intro hlt
      rw [List.map_cons, List.mapM_cons, α.value_digit n (hlt n List.mem_cons_self),
        ih fun m hm => hlt m (List.mem_cons_of_mem _ hm)]
      rfl
  rw [decode, encodeRaw, h _ (sextets_lt bs), Option.bind_some, bytesOf_sextets]

theorem encodeRaw_plain {bs : List UInt8} {c : Char} (h : c ∈ α.encodeRaw bs) :
    c ∉ ['=', '\t', '\n', '\u000C', '\r', ' ', '.'] := by
  obtain ⟨n, hn, rfl⟩ := List.mem_map.mp h
  exact α.plain n (sextets_lt bs n hn)

theorem encodeRaw_isEmpty (bs : List UInt8) : (α.encodeRaw bs).isEmpty = bs.isEmpty := by
  rw [encodeRaw, List.isEmpty_map]
  cases bs using sextets.fun_cases <;> rfl

theorem encodeRaw_length (bs : List UInt8) : ((α.encodeRaw bs).length + pads bs) % 4 = 0 := by
  rw [encodeRaw, List.length_map]
  exact sextets_length bs

end Alphabet

end CasuyaLive.Lib.Base64
