/-
  CasuyaLive.Lib.Logistic — two logistic chances of one event and its opposite, and the price
  of a chance.

  Two chances are coherent when they leave something for the rest: their sum is at most 1.
  For logistic chances this is a bound on the sum of the scores
  (`sigmoid_add_le_one_iff`). Under a common cap it is that, or one score so low that its
  chance fits beside the cap (`capped_add_le_one_iff`).

  `crossEntropy t c` is the mean loss of announcing the chance `c` where the event has the
  frequency `t`; it is least at `t` itself (`crossEntropy_self_le`).
-/

import Mathlib.Analysis.SpecialFunctions.Sigmoid
import Mathlib.Analysis.SpecialFunctions.Pow.Real

namespace CasuyaLive.Lib

open Real

/-- The score whose chance is `p`. -/
noncomputable def logit (p : ℝ) : ℝ := log (p / (1 - p))

variable {x y p c : ℝ}

theorem sigmoid_logit (h0 : 0 < p) (h1 : p < 1) : sigmoid (logit p) = p := by
  have hrest : 0 < 1 - p := by linarith
  rw [sigmoid_def, logit, exp_neg, exp_log (div_pos h0 hrest)]
  field_simp
  ring

theorem sigmoid_neg_logit (h0 : 0 < p) (h1 : p < 1) : sigmoid (-logit p) = 1 - p := by
  rw [sigmoid_neg, sigmoid_logit h0 h1]

/-- A logistic chance to any base. -/
theorem one_div_one_add_rpow {b : ℝ} (hb : 0 < b) (x : ℝ) : 1 / (1 + b ^ (-x)) = sigmoid (log b * x) := by
  rw [sigmoid_def, rpow_def_of_pos hb, one_div, mul_neg]

theorem sigmoid_add_le_one_iff : sigmoid x + sigmoid y ≤ 1 ↔ x + y ≤ 0 := by
  have hopposite : sigmoid x + sigmoid y ≤ 1 ↔ sigmoid x ≤ sigmoid (-y) := by
    rw [sigmoid_neg]
    exact ⟨fun h => by linarith, fun h => by linarith⟩
  rw [hopposite, sigmoid_le_iff]
  exact ⟨fun h => by linarith, fun h => by linarith⟩

/-- Two chances under a cap of more than an even chance. -/
theorem capped_add_le_one_iff (hhalf : 1 / 2 < c) (hc : c < 1) :
    min (sigmoid x) c + min (sigmoid y) c ≤ 1 ↔ x + y ≤ 0 ∨ x ≤ -logit c ∨ y ≤ -logit c := by
  have hlow : ∀ z, z ≤ -logit c ↔ sigmoid z ≤ 1 - c := by
    intro z
    rw [← sigmoid_neg_logit (by linarith) hc, sigmoid_le_iff]
  rw [hlow, hlow, ← sigmoid_add_le_one_iff]
  have hxc := min_le_right (sigmoid x) c
  have hyc := min_le_right (sigmoid y) c
  have hx := min_le_left (sigmoid x) c
  have hy := min_le_left (sigmoid y) c
  refine ⟨fun h => ?_, fun h => ?_⟩
  · by_contra hno
    simp only [not_or, not_le] at hno
    obtain ⟨hsum, hbx, hby⟩ := hno
    -- a chance at the cap leaves less than the other one takes
    rcases min_choice (sigmoid x) c with ex | ex <;> rcases min_choice (sigmoid y) c with ey | ey <;>
      rw [ex, ey] at h <;> linarith
  · rcases h with h | h | h <;> linarith

/-! ## The price of a chance -/

noncomputable def crossEntropy (t c : ℝ) : ℝ := -(t * log c + (1 - t) * log (1 - c))

theorem crossEntropy_self_le {t c : ℝ} (ht0 : 0 < t) (ht1 : t < 1) (hc0 : 0 < c) (hc1 : c < 1) :
    crossEntropy t t ≤ crossEntropy t c := by
  -- each share times the logarithm of its ratio is at most the gap of the shares
  have hgap : ∀ {p q : ℝ}, 0 < p → 0 < q → p * log q - p * log p ≤ q - p := by
    intro p q hp hq
    have hratio := log_le_sub_one_of_pos (div_pos hq hp)
    rw [log_div hq.ne' hp.ne'] at hratio
    have hscaled := mul_le_mul_of_nonneg_left hratio hp.le
    have hcancel : p * (q / p - 1) = q - p := by
      field_simp
    linarith
  have h := hgap ht0 hc0
  have hrest := hgap (sub_pos.mpr ht1) (sub_pos.mpr hc1)
  unfold crossEntropy
  linarith

end CasuyaLive.Lib
