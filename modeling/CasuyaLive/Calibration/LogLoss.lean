/-
  CasuyaLive.Calibration.LogLoss — the loss a fit is judged by, and the adoption gate
  (analytics-engine-py, scripts/calibrate.py: `logloss`, `baseline_logloss`, `_adoptable`).

  Logarithms are real. The loss of no rows is infinite. On labels of both classes the
  baseline is the entropy of their mean, which the clipping leaves alone as long as there are
  fewer than 10^12 of them. `baseline_is_best_constant`: no constant prediction is better, so
  a fit that passes the gate beats them all.
-/

import CasuyaLive.Lib.Logistic
import CasuyaLive.Calibration.FitLogistic

namespace CasuyaLive.Calibration

open CasuyaLive.Lib

noncomputable section

open Classical

/-! ## The code -/

/-- A probability that both logarithms take. -/
def clip (p : ℝ) : ℝ := max (min p (1 - 1e-12)) 1e-12

/-- What one row adds to the loss. -/
def addLoss (s : ℝ) (x : ℕ × ℝ) : Except Fault ℝ := do
  let p := clip x.2
  let likely ← ln p
  let unlikely ← ln (1 - p)
  return s + -(x.1 * likely + (1 - x.1) * unlikely)

def logloss (y : List ℕ) (probs : List ℝ) : Except Fault (WithTop ℝ) :=
  if y.length = 0 then .ok ⊤
  else do
    let s ← (y.zip probs).foldlM addLoss 0
    let mean ← quot s y.length
    return mean

def baselineLogloss (y : List ℕ) : Except Fault ℝ := do
  let mean ← if y = [] then .ok 0 else quot y.sum y.length
  let tau := clip mean
  let likely ← ln tau
  let unlikely ← ln (1 - tau)
  return -(tau * likely + (1 - tau) * unlikely)

/-- The adoption gate: enough rows, some weight, and a loss below the baseline. -/
def adoptable (rows valRows : ℕ) (weights : List ℝ) (valLL : WithTop ℝ) (baseLL : ℝ) : Except Fault Bool :=
  if rows < 100 ∨ valRows < 20 then .ok false
  else
    match (weights.map (|·|)).max? with
    | none => .error .empty
    | some most => if most < 1e-3 then .ok false else .ok (decide (valLL < ((baseLL - 1e-9 : ℝ) : WithTop ℝ)))

/-! ## The loss of a constant -/

/-- The mean of the labels. -/
def meanLabel (y : List ℕ) : ℝ := y.sum / y.length

theorem clip_bounds (p : ℝ) : 0 < clip p ∧ clip p < 1 := by
  constructor
  · exact lt_max_of_lt_right (by norm_num)
  · exact max_lt ((min_le_right _ _).trans_lt (by norm_num)) (by norm_num)

theorem clip_of_mem {p : ℝ} (h0 : 1e-12 ≤ p) (h1 : p ≤ 1 - 1e-12) : clip p = p := by
  rw [clip, min_eq_left h1, max_eq_left h0]

theorem addLoss_ok (s : ℝ) (x : ℕ × ℝ) :
    addLoss s x = .ok (s + -(x.1 * Real.log (clip x.2) + (1 - x.1) * Real.log (1 - clip x.2))) := by
  obtain ⟨h0, h1⟩ := clip_bounds x.2
  simp only [addLoss, ln_ok h0, ln_ok (sub_pos.mpr h1), ok_bind]
  rfl

theorem foldlM_constant (y : List ℕ) (p : ℝ) : ∀ s : ℝ, (y.zip (List.replicate y.length p)).foldlM addLoss s =
    .ok (s - (y.sum * Real.log (clip p) + (y.length - y.sum) * Real.log (1 - clip p))) := by
  induction y with
  | nil =>
    intro s
    simp
    rfl
  | cons v y ih =>
    intro s
    rw [List.length_cons, List.replicate_succ, List.zip_cons_cons, List.foldlM_cons, addLoss_ok, ok_bind, ih]
    congr 1
    push_cast [List.sum_cons]
    ring

/-- The loss of announcing one chance for every row. -/
theorem logloss_constant {y : List ℕ} (hy : y ≠ []) (p : ℝ) :
    logloss y (List.replicate y.length p) = .ok (crossEntropy (meanLabel y) (clip p) : ℝ) := by
  have hlen : y.length ≠ 0 := fun e => hy (List.length_eq_zero_iff.mp e)
  have hn : (y.length : ℝ) ≠ 0 := Nat.cast_ne_zero.mpr hlen
  have hmean : (0 - (y.sum * Real.log (clip p) + (y.length - y.sum) * Real.log (1 - clip p))) / y.length =
      crossEntropy (meanLabel y) (clip p) := by
    rw [crossEntropy, meanLabel]
    field_simp
    ring
  rw [logloss, if_neg hlen, foldlM_constant, ok_bind, quot_ok hn, ok_bind, hmean]
  rfl

theorem baselineLogloss_ok {y : List ℕ} (hy : y ≠ []) :
    baselineLogloss y = .ok (crossEntropy (clip (meanLabel y)) (clip (meanLabel y))) := by
  have hn : (y.length : ℝ) ≠ 0 := Nat.cast_ne_zero.mpr fun e => hy (List.length_eq_zero_iff.mp e)
  obtain ⟨h0, h1⟩ := clip_bounds (meanLabel y)
  have hmean : (y.sum : ℝ) / y.length = meanLabel y := rfl
  rw [baselineLogloss, if_neg hy, quot_ok hn, ok_bind, hmean]
  simp only [ln_ok h0, ln_ok (sub_pos.mpr h1), ok_bind]
  rfl

/-! ## The best constant -/

section

variable {y : List ℕ}

theorem sum_pos (hpos : 1 ∈ y) : 0 < y.sum := List.sum_pos_iff_exists_pos_nat.mpr ⟨1, hpos, one_pos⟩

theorem sum_lt_length (hy : ∀ v ∈ y, v = 0 ∨ v = 1) (hneg : 0 ∈ y) : y.sum < y.length := by
  obtain ⟨pre, post, rfl⟩ := List.append_of_mem hneg
  have hle : ∀ l : List ℕ, (∀ v ∈ l, v = 0 ∨ v = 1) → l.sum ≤ l.length := by
    intro l hl
    have := List.sum_le_card_nsmul l 1 fun v hv => by rcases hl v hv with rfl | rfl <;> omega
    simpa using this
  have hpre := hle pre fun v hv => hy v (List.mem_append_left _ hv)
  have hpost := hle post fun v hv => hy v (by simp [hv])
  simp only [List.sum_append, List.sum_cons, List.length_append, List.length_cons]
  omega

/-- Fewer than 10^12 labels of both classes have a mean that is not clipped. -/
theorem meanLabel_bounds (hy : ∀ v ∈ y, v = 0 ∨ v = 1) (hpos : 1 ∈ y) (hneg : 0 ∈ y) (hfew : y.length < 10 ^ 12) :
    0 < meanLabel y ∧ meanLabel y < 1 ∧ clip (meanLabel y) = meanLabel y := by
  have hn : (0 : ℝ) < y.length := by exact_mod_cast List.length_pos_of_mem hpos
  have hone : (1 : ℝ) ≤ y.sum := by exact_mod_cast sum_pos hpos
  have hless : (y.sum : ℝ) + 1 ≤ y.length := by exact_mod_cast sum_lt_length hy hneg
  have hmany : (y.length : ℝ) * 1e-12 ≤ 1 := by
    have : (y.length : ℝ) ≤ 10 ^ 12 := by exact_mod_cast hfew.le
    linarith
  have hlow : 1e-12 ≤ meanLabel y := by
    rw [meanLabel, le_div_iff₀ hn]
    linarith
  have hhigh : meanLabel y ≤ 1 - 1e-12 := by
    rw [meanLabel, div_le_iff₀ hn]
    linarith
  refine ⟨lt_of_lt_of_le (by norm_num) hlow, lt_of_le_of_lt hhigh (by norm_num), clip_of_mem hlow hhigh⟩

theorem adoptable_below {rows valRows : ℕ} {weights : List ℝ} {valLL : WithTop ℝ} {baseLL : ℝ}
    (h : adoptable rows valRows weights valLL baseLL = .ok true) : valLL < (baseLL : WithTop ℝ) := by
  unfold adoptable at h
  split at h
  · cases h
  · split at h
    · cases h
    · split at h
      · cases h
      · have hlt := of_decide_eq_true (Except.ok.inj h)
        exact hlt.trans (WithTop.coe_lt_coe.mpr (by norm_num))

/-- The baseline is the loss of the best constant prediction, which is the mean of the
    labels, and a fit that passes the gate beats every constant. -/
theorem baseline_is_best_constant (y : List ℕ) (hy : ∀ v ∈ y, v = 0 ∨ v = 1) (hpos : 1 ∈ y) (hneg : 0 ∈ y)
    (hfew : y.length < 10 ^ 12) :
    ∃ base, baselineLogloss y = .ok base ∧
      ∀ p, 0 < p → p < 1 → ∃ loss : ℝ, logloss y (List.replicate y.length p) = .ok (loss : WithTop ℝ) ∧ base ≤ loss ∧
        (p = meanLabel y → base = loss) ∧
        ∀ rows weights probs valLL, logloss y probs = .ok valLL → adoptable rows y.length weights valLL base = .ok true →
          valLL < (loss : WithTop ℝ) := by
  have hne : y ≠ [] := List.ne_nil_of_mem hpos
  obtain ⟨h0, h1, hclip⟩ := meanLabel_bounds hy hpos hneg hfew
  have hbase := baselineLogloss_ok hne
  rw [hclip] at hbase
  refine ⟨_, hbase, fun p _ _ => ⟨_, logloss_constant hne p, ?_, ?_, ?_⟩⟩
  · exact crossEntropy_self_le h0 h1 (clip_bounds p).1 (clip_bounds p).2
  · intro hp
    rw [hp, hclip]
  · intro rows weights probs valLL _ hadopt
    have hle := crossEntropy_self_le h0 h1 (clip_bounds p).1 (clip_bounds p).2
    exact (adoptable_below hadopt).trans_le (WithTop.coe_le_coe.mpr hle)

/-- Three labels, two of them 1. -/
theorem two_of_three_labels : ∃ base loss : ℝ, baselineLogloss [1, 1, 0] = .ok base ∧
    logloss [1, 1, 0] (List.replicate 3 (1 / 2)) = .ok (loss : WithTop ℝ) ∧ base ≤ loss := by
  obtain ⟨base, hbase, hconstant⟩ := baseline_is_best_constant [1, 1, 0] (by decide) (by decide) (by decide) (by decide)
  obtain ⟨loss, hloss, hle, -⟩ := hconstant (1 / 2) (by norm_num) (by norm_num)
  exact ⟨base, loss, hbase, hloss, hle⟩

end

end

end CasuyaLive.Calibration
