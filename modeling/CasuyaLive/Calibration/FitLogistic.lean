/-
  CasuyaLive.Calibration.FitLogistic — the logistic regression of the calibration
  (analytics-engine-py, scripts/calibrate.py: `sigmoid`, `fit_logistic`).

  Reals are exact, the square root and the exponential too. A division by zero and the
  logarithm of what is not positive raise, as does the first row of no rows. A training
  matrix has the same columns in every row. The loss before the first pass is infinite.

  Each function has a lemma that says it answers and what it keeps; `descend_ok` says it of
  any number of passes. `fit_logistic_raw`: the weights answered mean on raw rows what the
  weights of the descent mean on standardised ones.
-/

import Mathlib.Analysis.SpecialFunctions.Sigmoid
import Mathlib.Analysis.SpecialFunctions.Log.Basic
import Mathlib.Analysis.Real.Sqrt

namespace CasuyaLive.Calibration

/-- The exceptions of Python that the fit could meet. -/
inductive Fault where
  | zeroDivision
  /-- The logarithm of a number that is not positive. -/
  | domain
  | index
  /-- `max` of nothing. -/
  | empty
  deriving DecidableEq

/-- One value a column, each of which may raise. -/
def each {α : Type} : {k : ℕ} → (Fin k → Except Fault α) → Except Fault (Fin k → α)
  | 0, _ => .ok Fin.elim0
  | _ + 1, f => do
    let first ← f 0
    let rest ← each fun j => f j.succ
    return Fin.cons first rest

noncomputable section

open Classical

def quot (a b : ℝ) : Except Fault ℝ := if b = 0 then .error .zeroDivision else .ok (a / b)

def ln (x : ℝ) : Except Fault ℝ := if x ≤ 0 then .error .domain else .ok (Real.log x)

/-- Numerically bounded logistic. -/
def sigmoid (z : ℝ) : Except Fault ℝ :=
  if 0 ≤ z then
    let e := Real.exp (-z)
    quot 1 (1 + e)
  else
    let e := Real.exp z
    quot e (1 + e)

/-! ## The fit -/

variable {k : ℕ}

/-- What one row adds to the gradients and to the negative log-likelihood. -/
def addRow (w : Fin (k + 1) → ℝ) (acc : (Fin (k + 1) → ℝ) × ℝ) (x : (Fin k → ℝ) × ℕ) :
    Except Fault ((Fin (k + 1) → ℝ) × ℝ) := do
  let z := w 0 + ∑ j : Fin k, w j.succ * x.1 j
  let p ← sigmoid z
  let err := p - x.2
  let likely ← ln (max p 1e-12)
  let unlikely ← ln (max (1 - p) 1e-12)
  return (Fin.cons (acc.1 0 + err) fun j => acc.1 j.succ + err * x.1 j,
    acc.2 + -(x.2 * likely + (1 - x.2) * unlikely))

/-- One pass over the rows: the new weights and the loss of the old ones. -/
def pass (lr l2 : ℝ) (Xn : List (Fin k → ℝ)) (y : List ℕ) (w : Fin (k + 1) → ℝ) :
    Except Fault ((Fin (k + 1) → ℝ) × ℝ) := do
  let n := Xn.length
  let (grads, nll) ← (Xn.zip y).foldlM (addRow w) (fun _ => 0, 0)
  let ridged : Fin (k + 1) → ℝ := Fin.cons (grads 0) fun j => grads j.succ + l2 * w j.succ
  let ridgePenalty := ∑ j : Fin k, w j.succ * w j.succ
  let stepped ← each fun j => do
    let d ← quot (lr * ridged j) n
    return w j - d
  let lossNow ← quot (nll + l2 * ridgePenalty / (2 : ℕ)) n
  return (stepped, lossNow)

/-- The passes left; a pass that does not move the loss is the last one. -/
def descend (lr tol l2 : ℝ) (Xn : List (Fin k → ℝ)) (y : List ℕ) :
    ℕ → (Fin (k + 1) → ℝ) → Option ℝ → Except Fault ((Fin (k + 1) → ℝ) × Option ℝ)
  | 0, w, loss => .ok (w, loss)
  | iters + 1, w, loss => do
    let (stepped, lossNow) ← pass lr l2 Xn y w
    if ∃ before ∈ loss, |lossNow - before| ≤ tol then return (stepped, loss)
    else descend lr tol l2 Xn y iters stepped (some lossNow)

/-- Batch gradient descent on the standardised rows, mapped back to the original scale: the
    intercept, then a weight for each column, and the final loss. -/
def fitLogistic (X : List (Fin k → ℝ)) (y : List ℕ) (lr : ℝ) (iters : ℕ) (tol l2 : ℝ) :
    Except Fault ((Fin (k + 1) → ℝ) × Option ℝ) :=
  match X with
  | [] => .error .index
  | _ :: _ => do
    let n := X.length
    let mu ← each fun j => quot (X.map fun row => row j).sum n
    let sd ← each fun j => do
      let var ← quot (X.map fun row => (row j - mu j) ^ 2).sum n
      return if 1e-12 < var then Real.sqrt var else 1
    let Xn ← X.mapM fun row => each fun j => quot (row j - mu j) (sd j)
    let (w, loss) ← descend lr tol l2 Xn y iters (fun _ => 0) none
    let shift ← each fun j => quot (w j.succ * mu j) (sd j)
    let coef ← each fun j => quot (w j.succ) (sd j)
    return (Fin.cons (w 0 - ∑ j : Fin k, shift j) coef, loss)

/-! ## Standardised columns -/

def mean (X : List (Fin k → ℝ)) (j : Fin k) : ℝ := (X.map fun row => row j).sum / X.length

def variance (X : List (Fin k → ℝ)) (j : Fin k) : ℝ := (X.map fun row => (row j - mean X j) ^ 2).sum / X.length

/-- A column that hardly varies counts as one of deviation 1. -/
def deviation (X : List (Fin k → ℝ)) (j : Fin k) : ℝ := if 1e-12 < variance X j then Real.sqrt (variance X j) else 1

def standardise (X : List (Fin k → ℝ)) (row : Fin k → ℝ) (j : Fin k) : ℝ := (row j - mean X j) / deviation X j

theorem deviation_ne_zero (X : List (Fin k → ℝ)) (j : Fin k) : deviation X j ≠ 0 := by
  unfold deviation
  split
  · rename_i h
    have hpos : 0 < variance X j := lt_trans (by norm_num) h
    exact (Real.sqrt_pos.mpr hpos).ne'
  · exact one_ne_zero

/-- A constant column is 0 in every standardised row. -/
theorem standardise_constant {X : List (Fin k → ℝ)} {j : Fin k} {c : ℝ} (h : ∀ row ∈ X, row j = c) :
    ∀ row ∈ X, standardise X row j = 0 := by
  intro row hrow
  have hlen : (X.length : ℝ) ≠ 0 := by
    rw [Nat.cast_ne_zero]
    exact fun e => List.ne_nil_of_mem hrow (List.length_eq_zero_iff.mp e)
  have hmap : X.map (fun row => row j) = List.replicate X.length c :=
    List.eq_replicate_iff.mpr ⟨List.length_map _, List.forall_mem_map.mpr h⟩
  have hmean : mean X j = c := by
    rw [mean, hmap, List.sum_replicate, nsmul_eq_mul, mul_div_cancel_left₀ c hlen]
  rw [standardise, h row hrow, hmean, sub_self, zero_div]

/-! ## Nothing raises -/

theorem quot_ok {b : ℝ} (h : b ≠ 0) (a : ℝ) : quot a b = .ok (a / b) := if_neg h

theorem ln_ok {x : ℝ} (h : 0 < x) : ln x = .ok (Real.log x) := if_neg (not_le.mpr h)

theorem each_ok {α : Type} {f : Fin k → Except Fault α} {g : Fin k → α} (h : ∀ j, f j = .ok (g j)) : each f = .ok g := by
  induction k with
  | zero =>
    rw [each]
    congr 1
    funext j
    exact j.elim0
  | succ k ih =>
    rw [each, h 0, ih fun j => h j.succ]
    simp only [bind, Except.bind, pure, Except.pure]
    congr 1
    exact Fin.cons_self_tail g

@[simp] theorem ok_bind {α β : Type} (a : α) (f : α → Except Fault β) : (Except.ok a >>= f) = f a := rfl

@[simp] theorem each_pure {α : Type} (g : Fin k → α) : (each fun j => pure (g j)) = .ok g := each_ok fun _ => rfl

theorem sigmoid_ok (z : ℝ) : sigmoid z = .ok (Real.sigmoid z) := by
  unfold sigmoid
  split
  · have hpos : 0 < 1 + Real.exp (-z) := by positivity
    simp only [quot_ok hpos.ne', Real.sigmoid_def, one_div]
  · have hpos : 0 < 1 + Real.exp z := by positivity
    simp only [quot_ok hpos.ne', Real.sigmoid_def, Real.exp_neg]
    congr 1
    field_simp
    ring

/-- A row changes no gradient of a column in which it is 0. -/
theorem addRow_ok (w : Fin (k + 1) → ℝ) (acc : (Fin (k + 1) → ℝ) × ℝ) (x : (Fin k → ℝ) × ℕ) :
    ∃ added, addRow w acc x = .ok added ∧ ∀ j, x.1 j = 0 → added.1 j.succ = acc.1 j.succ := by
  have hclip : ∀ q : ℝ, 0 < max q 1e-12 := fun q => lt_max_of_lt_right (by norm_num)
  cases h : addRow w acc x with
  | error e =>
    simp only [addRow, sigmoid_ok, ln_ok (hclip _), ok_bind] at h
    cases h
  | ok added =>
    simp only [addRow, sigmoid_ok, ln_ok (hclip _), ok_bind] at h
    cases h
    refine ⟨_, rfl, fun j hj => ?_⟩
    simp [hj]

theorem foldlM_addRow_ok (w : Fin (k + 1) → ℝ) (rows : List ((Fin k → ℝ) × ℕ)) : ∀ acc : (Fin (k + 1) → ℝ) × ℝ,
    ∃ sum, rows.foldlM (addRow w) acc = .ok sum ∧ ∀ j, (∀ x ∈ rows, x.1 j = 0) → sum.1 j.succ = acc.1 j.succ := by
  induction rows with
  | nil =>
    intro acc
    exact ⟨acc, rfl, fun j _ => rfl⟩
  | cons x rows ih =>
    intro acc
    obtain ⟨added, hadded, hkeep⟩ := addRow_ok w acc x
    obtain ⟨sum, hsum, hrest⟩ := ih added
    refine ⟨sum, ?_, fun j hj => ?_⟩
    · rw [List.foldlM_cons, hadded]
      exact hsum
    · rw [hrest j fun x' hx' => hj x' (List.mem_cons_of_mem _ hx'), hkeep j (hj x List.mem_cons_self)]

section

variable (lr tol l2 : ℝ) (y : List ℕ) {Xn : List (Fin k → ℝ)}

/-- A pass leaves a weight of 0 on a column that is 0. -/
theorem pass_ok (hX : Xn ≠ []) (w : Fin (k + 1) → ℝ) :
    ∃ stepped, pass lr l2 Xn y w = .ok stepped ∧
      ∀ j, (∀ row ∈ Xn, row j = 0) → w j.succ = 0 → stepped.1 j.succ = 0 := by
  have hn : (Xn.length : ℝ) ≠ 0 := by
    rw [Nat.cast_ne_zero]
    exact fun e => hX (List.length_eq_zero_iff.mp e)
  obtain ⟨sum, hsum, hkeep⟩ := foldlM_addRow_ok w (Xn.zip y) (fun _ => 0, 0)
  cases h : pass lr l2 Xn y w with
  | error e =>
    simp only [pass, hsum, quot_ok hn, ok_bind, each_pure] at h
    cases h
  | ok stepped =>
    simp only [pass, hsum, quot_ok hn, ok_bind, each_pure] at h
    cases h
    refine ⟨_, rfl, fun j hj hw => ?_⟩
    have hgrad : sum.1 j.succ = 0 := hkeep j fun x hx => hj x.1 (List.of_mem_zip hx).1
    simp [hw, hgrad]

/-- However many passes are left. -/
theorem descend_ok (hX : Xn ≠ []) (iters : ℕ) : ∀ (w : Fin (k + 1) → ℝ) (loss : Option ℝ),
    ∃ last, descend lr tol l2 Xn y iters w loss = .ok last ∧
      ∀ j, (∀ row ∈ Xn, row j = 0) → w j.succ = 0 → last.1 j.succ = 0 := by
  induction iters with
  | zero =>
    intro w loss
    exact ⟨(w, loss), rfl, fun j _ hw => hw⟩
  | succ iters ih =>
    intro w loss
    obtain ⟨stepped, hstepped, hkeep⟩ := pass_ok lr l2 y hX w
    by_cases hstop : ∃ before ∈ loss, |stepped.2 - before| ≤ tol
    · refine ⟨(stepped.1, loss), ?_, hkeep⟩
      simp only [descend, hstepped, ok_bind, if_pos hstop]
      rfl
    · obtain ⟨last, hlast, hrest⟩ := ih stepped.1 (some stepped.2)
      refine ⟨last, ?_, fun j hj hw => hrest j hj (hkeep j hj hw)⟩
      simp only [descend, hstepped, ok_bind, if_neg hstop]
      exact hlast

end

/-! ## Back to the original scale -/

/-- The fit is the descent on the standardised rows, mapped back. -/
theorem fitLogistic_eq {X : List (Fin k → ℝ)} (hX : X ≠ []) (y : List ℕ) (lr : ℝ) (iters : ℕ) (tol l2 : ℝ)
    {u : Fin (k + 1) → ℝ} {loss : Option ℝ}
    (hu : descend lr tol l2 (X.map (standardise X)) y iters (fun _ => 0) none = .ok (u, loss)) :
    fitLogistic X y lr iters tol l2 =
      .ok (Fin.cons (u 0 - ∑ j : Fin k, u j.succ * mean X j / deviation X j) fun j => u j.succ / deviation X j, loss) := by
  have hn : (X.length : ℝ) ≠ 0 := by
    rw [Nat.cast_ne_zero]
    exact fun e => hX (List.length_eq_zero_iff.mp e)
  have hrows : (X.mapM fun row => (.ok (standardise X row) : Except Fault (Fin k → ℝ))) = .ok (X.map (standardise X)) :=
    List.mapM_pure
  have hmu : (each fun j => quot (X.map fun row => row j).sum X.length) = .ok (mean X) := each_ok fun j => quot_ok hn _
  have hsd : (each fun j => (quot (X.map fun row => (row j - mean X j) ^ 2).sum X.length >>= fun var =>
      pure (if 1e-12 < var then Real.sqrt var else 1))) = .ok (deviation X) := by
    refine each_ok fun j => ?_
    rw [quot_ok hn]
    rfl
  have hrow : ∀ row : Fin k → ℝ, (each fun j => quot (row j - mean X j) (deviation X j)) = .ok (standardise X row) :=
    fun row => each_ok fun j => quot_ok (deviation_ne_zero X j) _
  have hshift : (each fun j => quot (u j.succ * mean X j) (deviation X j)) = .ok fun j => u j.succ * mean X j / deviation X j :=
    each_ok fun j => quot_ok (deviation_ne_zero X j) _
  have hcoef : (each fun j => quot (u j.succ) (deviation X j)) = .ok fun j => u j.succ / deviation X j :=
    each_ok fun j => quot_ok (deviation_ne_zero X j) _
  unfold fitLogistic
  split
  · exact absurd rfl hX
  · simp only [hmu, ok_bind, hsd, hrow, hrows, hu, hshift, hcoef]
    rfl

/-- The weights answered mean on every raw row what the weights of the descent mean on the
    standardised one; nothing raises, and a constant column keeps the weight 0 in every pass. -/
theorem fit_logistic_raw (X : List (Fin k → ℝ)) (y : List ℕ) (lr : ℝ) (iters : ℕ) (tol l2 : ℝ) (hX : X ≠ []) :
    ∃ (w u : Fin (k + 1) → ℝ) (loss : Option ℝ), fitLogistic X y lr iters tol l2 = .ok (w, loss) ∧
      descend lr tol l2 (X.map (standardise X)) y iters (fun _ => 0) none = .ok (u, loss) ∧
      (∀ x : Fin k → ℝ, w 0 + ∑ j : Fin k, w j.succ * x j =
        u 0 + ∑ j : Fin k, u j.succ * ((x j - mean X j) / deviation X j)) ∧
      ∀ j, (∃ c, ∀ row ∈ X, row j = c) → ∀ passes, ∃ (v : Fin (k + 1) → ℝ) (lossThen : Option ℝ),
        descend lr tol l2 (X.map (standardise X)) y passes (fun _ => 0) none = .ok (v, lossThen) ∧ v j.succ = 0 := by
  have hXn : X.map (standardise X) ≠ [] := by
    rw [Ne, List.map_eq_nil_iff]
    exact hX
  obtain ⟨⟨u, loss⟩, hu, -⟩ := descend_ok lr tol l2 y hXn iters (fun _ => 0) none
  refine ⟨_, u, loss, fitLogistic_eq hX y lr iters tol l2 hu, hu, fun x => ?_, ?_⟩
  · simp only [Fin.cons_zero, Fin.cons_succ]
    rw [sub_add_eq_add_sub, add_sub_assoc, ← Finset.sum_sub_distrib]
    congr 1
    refine Finset.sum_congr rfl fun j _ => ?_
    ring
  · intro j hconst passes
    obtain ⟨c, hc⟩ := hconst
    obtain ⟨⟨v, lossThen⟩, hv, hkeep⟩ := descend_ok lr tol l2 y hXn passes (fun _ => 0) none
    exact ⟨v, lossThen, hv, hkeep j (List.forall_mem_map.mpr (standardise_constant hc)) rfl⟩

/-- A column of threes weighs nothing in the fit. -/
theorem a_constant_column_weighs_nothing : ∃ (w : Fin 3 → ℝ) (loss : Option ℝ),
    fitLogistic [![3, 0], ![3, 1]] [0, 1] 0.1 6000 1e-9 1e-3 = .ok (w, loss) ∧ w 1 = 0 := by
  obtain ⟨w, u, loss, hfit, hu, hraw, hconst⟩ := fit_logistic_raw [![3, 0], ![3, 1]] [0, 1] 0.1 6000 1e-9 1e-3 (by simp)
  obtain ⟨v, lossThen, hv, hzero⟩ := hconst 0 ⟨3, by simp⟩ 6000
  rw [hu] at hv
  cases hv
  have hzero' : u 1 = 0 := hzero
  refine ⟨w, loss, hfit, ?_⟩
  -- the two rows differ in that column only
  have h0 := hraw ![0, 0]
  have h1 := hraw ![1, 0]
  simp [Fin.sum_univ_two, hzero'] at h0 h1
  linarith

end

end CasuyaLive.Calibration
