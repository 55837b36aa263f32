/-
  CasuyaLive.Lib.Float64 — the doubles of IEEE 754, by the numbers they stand for.

  A double is a rational, an infinity or NaN. The two zeros are one here: no comparison and
  no conversion to an integer tells them apart. `nearest` keeps 53 bits of a rational, at a
  last place of 2 ^ -1074 or more, a tie going to the even neighbour; from 2 ^ 1024 on it is
  an infinity. `toInt` is the conversion to 64 bits on amd64: towards zero, and the least
  integer for what does not fit.
  - `nearest_zpow`: a number of 53 bits is its own nearest double; so are the integers up to
    2 ^ 53 (`nearest_intCast`) and every result of `nearest` (`nearest_nearest`).
  - `toInt_nearest_natCast`: a natural number comes back as it is from its nearest double
    exactly when it is one, below 2 ^ 63.
-/

import Mathlib.Data.Int.Log
import Mathlib.Data.Rat.Floor
import Mathlib.Algebra.Order.Ring.Rat
import Mathlib.Tactic.Linarith
import Mathlib.Tactic.Positivity

namespace CasuyaLive.Lib

inductive Float64 where
  | finite (q : ℚ)
  | inf (neg : Bool)
  | nan
  deriving DecidableEq

/-- To the nearest integer, a tie to the even one. -/
def roundEven (q : ℚ) : ℤ :=
  let part := 2 * (q - ⌊q⌋)
  if part < 1 then ⌊q⌋ else if 1 < part then ⌊q⌋ + 1 else if ⌊q⌋ % 2 = 0 then ⌊q⌋ else ⌊q⌋ + 1

namespace Float64

/-- The exponent of the last place. -/
def lastPlace (q : ℚ) : ℤ := max (Int.log 2 |q| - 52) (-1074)

def nearest (q : ℚ) : Float64 :=
  let x : ℚ := roundEven (q / 2 ^ lastPlace q) * 2 ^ lastPlace q
  if 2 ^ 1024 ≤ |x| then .inf (q < 0) else .finite x

instance : Coe ℚ Float64 := ⟨finite⟩
/-- The conversion of an integer. -/
instance : IntCast Float64 := ⟨fun n => nearest n⟩
instance (n : ℕ) : OfNat Float64 n := ⟨finite n⟩

/-- `<` of Go: false as soon as NaN takes part. -/
def lt : Float64 → Float64 → Bool
  | finite p, finite q => p < q
  | finite _, inf neg => !neg
  | inf neg, finite _ => neg
  | inf neg, inf neg' => neg && !neg'
  | nan, _ => false
  | finite _, nan => false
  | inf _, nan => false

/-- `==` of Go: NaN is not itself. -/
def eq : Float64 → Float64 → Bool
  | finite p, finite q => p = q
  | inf neg, inf neg' => neg == neg'
  | finite _, inf _ => false
  | inf _, finite _ => false
  | nan, _ => false
  | finite _, nan => false
  | inf _, nan => false

instance : LT Float64 := ⟨fun x y => x.lt y = true⟩
instance : DecidableLT Float64 := fun x y => inferInstanceAs (Decidable (x.lt y = true))

instance : Add Float64 where
  add
    | finite p, finite q => nearest (p + q)
    | finite _, inf neg => inf neg
    | inf neg, finite _ => inf neg
    | inf neg, inf neg' => if neg = neg' then inf neg else nan
    | nan, _ => nan
    | finite _, nan => nan
    | inf _, nan => nan

def isFinite : Float64 → Bool
  | finite _ => true
  | inf _ => false
  | nan => false

def toInt : Float64 → ℤ
  | finite q => if -2 ^ 63 ≤ q.num.tdiv q.den ∧ q.num.tdiv q.den < 2 ^ 63 then q.num.tdiv q.den else -2 ^ 63
  | inf _ => -2 ^ 63
  | nan => -2 ^ 63

theorem lt_iff (x y : Float64) : x < y ↔ x.lt y = true := Iff.rfl

theorem eq_symm {x y : Float64} (h : x.eq y = true) : y.eq x = true := by
  cases x <;> cases y <;> simp_all [eq]

theorem not_lt_of_eq {x y : Float64} (h : x.eq y = true) : ¬ x < y := by
  rw [lt_iff]
  cases x <;> cases y <;> simp_all [eq, lt]

/-! ## Rounding -/

theorem roundEven_intCast (n : ℤ) : roundEven n = n := by simp [roundEven]

/-- To one side of an integer it stays there. -/
theorem roundEven_le {q : ℚ} {n : ℤ} (h : q ≤ n) : roundEven q ≤ n := by
  have hfloor : ⌊q⌋ ≤ n := by exact_mod_cast (Int.floor_le q).trans h
  rcases hfloor.lt_or_eq with hlt | heq
  · unfold roundEven
    dsimp only
    split_ifs <;> omega
  · have hq : q = ⌊q⌋ := le_antisymm (heq ▸ h) (Int.floor_le q)
    rw [hq, roundEven_intCast, heq]

theorem le_roundEven {q : ℚ} {n : ℤ} (h : (n : ℚ) ≤ q) : n ≤ roundEven q := by
  have hfloor : n ≤ ⌊q⌋ := Int.le_floor.mpr h
  unfold roundEven
  dsimp only
  split_ifs <;> omega

theorem abs_roundEven_le {q : ℚ} {n : ℕ} (h : |q| ≤ n) : |roundEven q| ≤ n := by
  obtain ⟨hlo, hhi⟩ := abs_le.mp h
  exact abs_le.mpr ⟨le_roundEven (by push_cast; exact hlo), roundEven_le (by exact_mod_cast hhi)⟩

theorem log_of_lastPlace (q : ℚ) : |q| < 2 ^ (lastPlace q + 53) := by
  have hlog : |q| < ((2 : ℕ) : ℚ) ^ (Int.log 2 |q| + 1) := Int.lt_zpow_succ_log_self (by decide) |q|
  refine hlog.trans_le ?_
  push_cast
  exact zpow_le_zpow_right₀ (by norm_num) (by unfold lastPlace; omega)

/-- A number of 53 bits has its last place where it ends, but for the one that is 2 ^ 53 times
    its own. -/
theorem lastPlace_above {m k : ℤ} (hm0 : m ≠ 0) (hm : |m| ≤ 2 ^ 53) (hk : -1074 ≤ k) (h : k < lastPlace (m * 2 ^ k)) :
    lastPlace (m * 2 ^ k) = k + 1 ∧ |m| = 2 ^ 53 := by
  have hpos : (0 : ℚ) < 2 ^ k := zpow_pos (by norm_num) k
  have habs : |(m * 2 ^ k : ℚ)| = |(m : ℚ)| * 2 ^ k := by rw [abs_mul, abs_of_pos hpos]
  have hm' : |(m : ℚ)| ≤ 2 ^ (53 : ℤ) := by exact_mod_cast hm
  have hplace : lastPlace (m * 2 ^ k) = Int.log 2 |(m * 2 ^ k : ℚ)| - 52 := by
    unfold lastPlace at h ⊢
    omega
  have hlow : ((2 : ℕ) : ℚ) ^ Int.log 2 |(m * 2 ^ k : ℚ)| ≤ |(m * 2 ^ k : ℚ)| :=
    Int.zpow_log_le_self (by decide) (abs_pos.mpr (mul_ne_zero (by exact_mod_cast hm0) hpos.ne'))
  have hbound : (2 : ℚ) ^ (lastPlace (m * 2 ^ k) + 52) ≤ |(m : ℚ)| * 2 ^ k := by
    rw [hplace, sub_add_cancel, ← habs]
    exact_mod_cast hlow
  have hsum : (2 : ℚ) ^ (lastPlace (m * 2 ^ k) + 52) ≤ 2 ^ (53 + k) := by
    rw [zpow_add₀ (by norm_num) 53]
    exact hbound.trans (mul_le_mul_of_nonneg_right hm' hpos.le)
  have hone : lastPlace (m * 2 ^ k) = k + 1 := by
    have := (zpow_le_zpow_iff_right₀ (by norm_num : (1 : ℚ) < 2)).mp hsum
    omega
  have hfull : |(m : ℚ)| = 2 ^ (53 : ℤ) := by
    refine le_antisymm hm' (le_of_mul_le_mul_right ?_ hpos)
    rw [hone] at hbound
    rw [← zpow_add₀ (by norm_num)]
    exact (le_of_eq (by congr 1; ring)).trans hbound
  exact ⟨hone, by exact_mod_cast hfull⟩

/-- A number of 53 bits is a multiple of its last place. -/
theorem lastPlace_dvd {m k : ℤ} (hm : |m| ≤ 2 ^ 53) (hk : -1074 ≤ k) :
    ∃ n : ℤ, (m * 2 ^ k : ℚ) / 2 ^ lastPlace (m * 2 ^ k) = n := by
  have hshift : ∀ j : ℤ, (m * 2 ^ k : ℚ) / 2 ^ j = m * 2 ^ (k - j) := fun j => by
    rw [mul_div_assoc, ← zpow_sub₀ (by norm_num)]
  rcases eq_or_ne m 0 with rfl | hm0
  · exact ⟨0, by simp⟩
  rcases le_or_gt (lastPlace (m * 2 ^ k)) k with hle | hgt
  · obtain ⟨d, hd⟩ := Int.eq_ofNat_of_zero_le (sub_nonneg.mpr hle)
    refine ⟨m * 2 ^ d, ?_⟩
    rw [hshift, hd, zpow_natCast]
    push_cast
    rfl
  · obtain ⟨hone, hfull⟩ := lastPlace_above hm0 hm hk hgt
    have hhalf : (2 : ℚ) ^ (k - (k + 1)) = 1 / 2 := by
      rw [show k - (k + 1) = -1 by ring]
      norm_num
    rw [hshift, hone, hhalf]
    rcases abs_choice m with h | h
    · refine ⟨2 ^ 52, ?_⟩
      have : m = 2 ^ 53 := by omega
      rw [this]
      norm_num
    · refine ⟨-2 ^ 52, ?_⟩
      have : m = -2 ^ 53 := by omega
      rw [this]
      norm_num

theorem nearest_zpow {m k : ℤ} (hm : |m| ≤ 2 ^ 53) (hk : -1074 ≤ k) (h : |(m * 2 ^ k : ℚ)| < 2 ^ 1024) :
    nearest (m * 2 ^ k) = finite (m * 2 ^ k) := by
  obtain ⟨n, hn⟩ := lastPlace_dvd hm hk
  have hpos : (2 : ℚ) ^ lastPlace (m * 2 ^ k) ≠ 0 := (zpow_pos (by norm_num) _).ne'
  have hback : (n : ℚ) * 2 ^ lastPlace (m * 2 ^ k) = m * 2 ^ k := by rw [← hn, div_mul_cancel₀ _ hpos]
  unfold nearest
  dsimp only
  rw [hn, roundEven_intCast, hback, if_neg (not_le.mpr h)]

theorem nearest_intCast {n : ℤ} (h : |n| ≤ 2 ^ 53) : nearest n = finite n := by
  have hn : (n : ℚ) * 2 ^ (0 : ℤ) = n := by rw [zpow_zero, mul_one]
  have hlt : |(n : ℚ)| < 2 ^ 1024 := by
    have : |(n : ℚ)| ≤ 2 ^ 53 := by exact_mod_cast h
    exact this.trans_lt (pow_lt_pow_right₀ (by norm_num) (by norm_num))
  have := nearest_zpow h (k := 0) (by decide) (by rwa [hn])
  rwa [hn] at this

/-- A double is its own nearest. -/
theorem nearest_nearest {q x : ℚ} (h : nearest q = finite x) : nearest x = finite x := by
  unfold nearest at h
  dsimp only at h
  split at h
  · cases h
  · rename_i hlt
    cases h
    have hpos : (0 : ℚ) < 2 ^ lastPlace q := zpow_pos (by norm_num) _
    refine nearest_zpow (abs_roundEven_le (n := 2 ^ 53) ?_) (le_max_right _ _) (not_le.mp hlt)
    rw [abs_div, abs_of_pos hpos, div_le_iff₀ hpos]
    have hlog := (log_of_lastPlace q).le
    rw [add_comm, zpow_add₀ (by norm_num)] at hlog
    exact_mod_cast hlog

theorem nearest_add_zero (q : ℚ) : nearest q + 0 = nearest q := by
  cases h : nearest q with
  | finite x =>
    show nearest (x + 0) = finite x
    rw [add_zero, nearest_nearest h]
  | inf neg => rfl
  | nan => rfl

/-! ## Integers -/

/-- A natural number rounds to an integer. -/
theorem nearest_natCast_int {n : ℕ} {x : ℚ} (h : nearest n = finite x) : ∃ z : ℤ, x = z := by
  rcases le_or_gt n (2 ^ 53) with hle | hgt
  · have hn : nearest ((n : ℤ) : ℚ) = finite ((n : ℤ) : ℚ) := nearest_intCast (by rw [Nat.abs_cast]; exact_mod_cast hle)
    rw [Int.cast_natCast, h] at hn
    exact ⟨n, by simpa using hn⟩
  · have hlog : 53 ≤ Nat.log 2 n := (Nat.le_log_iff_pow_le (by decide) (by omega)).mpr hgt.le
    -- the last place is an even number's
    have hplace : lastPlace n = ((Nat.log 2 n - 52 : ℕ) : ℤ) := by
      rw [lastPlace, Nat.abs_cast, Int.log_natCast]
      omega
    unfold nearest at h
    dsimp only at h
    split at h
    · cases h
    · cases h
      refine ⟨roundEven (n / 2 ^ lastPlace n) * 2 ^ (Nat.log 2 n - 52), ?_⟩
      rw [hplace, zpow_natCast]
      push_cast
      rfl

theorem toInt_intCast (z : ℤ) : (finite z).toInt = if -2 ^ 63 ≤ z ∧ z < 2 ^ 63 then z else -2 ^ 63 := by
  simp [toInt]

/-- Through a double and back to 64 bits. -/
theorem toInt_nearest_natCast (n : ℕ) : (nearest n).toInt = n ↔ nearest n = finite n ∧ n < 2 ^ 63 := by
  constructor
  · intro h
    cases hx : nearest n with
    | finite x =>
      obtain ⟨z, rfl⟩ := nearest_natCast_int hx
      rw [hx, toInt_intCast] at h
      split at h
      · subst h
        exact ⟨rfl, by omega⟩
      · omega
    | inf neg =>
      rw [hx, toInt] at h
      omega
    | nan =>
      rw [hx, toInt] at h
      omega
  · intro h
    have hz := toInt_intCast n
    rw [Int.cast_natCast, if_pos (by omega)] at hz
    rw [h.1, hz]

end Float64

end CasuyaLive.Lib
