/-
  CasuyaLive.Calibration.Script — a run of the calibration (analytics-engine-py,
  scripts/calibrate.py: `metrics`, `evaluation_report`, `write_decay_matrix`, `main`).

  The history is replayed into rows, the rows of the first cycles are fitted and those of the
  last ones judge the fit; then the datasets are written. Reals are exact. What is printed is
  left out, and so is what is written without a step that can raise: the season trends divide
  by minutes and shots above 0, and take means of lists that are not empty
  (`Calibration.ModelCard` has the hash and the weights file).

  (1) `calibrate_raises_iff`: the script raises iff the window is empty, or there are rows
      enough and none of them is of a cycle to train on.
  (2) `validation_unseen`: what is learned depends on the cycles to train on alone.
  (3) `adopted_beats_constants`: a fit that is adopted has a loss below that of every
      constant prediction on the rows that judge it, which are of both outcomes then.
-/

import CasuyaLive.Calibration.Auc
import CasuyaLive.Calibration.LogLoss
import CasuyaLive.Calibration.Rows

namespace CasuyaLive.Calibration

open CasuyaLive.Lib CasuyaLive.Analytics

noncomputable section

open Classical

/-! ## The code -/

/-- A row, by the feature columns. -/
abbrev Row := Fin 5 → ℝ

def vectorOf (row : List ℚ) : Row := fun j => ((row.getD j 0 : ℚ) : ℝ)

def probability (weights : Row) (bias : ℝ) (row : Row) : Except Fault ℝ := sigmoid (bias + ∑ j, weights j * row j)

def addMetric (weights : Row) (bias : ℝ) (acc : ℕ × ℝ) (x : Row × ℕ) : Except Fault (ℕ × ℝ) := do
  let p ← probability weights bias x.1
  return (acc.1 + (if 0.5 ≤ p ↔ x.2 ≠ 0 then 1 else 0), acc.2 + (p - x.2) ^ 2)

/-- Accuracy and Brier score. -/
def metrics (X : List Row) (y : List ℕ) (weights : Row) (bias : ℝ) : Except Fault (ℝ × ℝ) := do
  let (correct, brier) ← (X.zip y).foldlM (addMetric weights bias) (0, 0)
  if y = [] then return (0, 0)
  else
    let accuracy ← quot correct y.length
    let score ← quot brier y.length
    return (accuracy, score)

/-- Accuracy, Brier score and loss; the baseline is printed beside them. -/
def evaluationReport (X : List Row) (y : List ℕ) (weights : Row) (bias : ℝ) : Except Fault (ℝ × ℝ × WithTop ℝ) := do
  let (acc, brier) ← metrics X y weights bias
  let probs ← X.mapM (probability weights bias)
  let ll ← logloss y probs
  let _ ← baselineLogloss y
  return (acc, brier, ll)

/-- A fit with its evaluation. -/
structure Fitted where
  trainRows : ℕ
  valRows : ℕ
  bias : ℝ
  weights : Row
  trainAccuracy : ℝ
  trainBrier : ℝ
  valAccuracy : ℝ
  valBrier : ℝ
  valAuc : ℚ
  baselineLogloss : ℝ
  modelLogloss : WithTop ℝ

inductive Ending where
  | insufficient
  | refused (f : Fitted)
  | adopted (f : Fitted)

/-- The part of `main` after the fit. -/
def judged (Xtr : List Row) (ytr : List ℕ) (Xva : List Row) (yva : List ℕ) (weights : Row) (bias : ℝ) : Except Fault Ending := do
  let (trainAcc, trainBrier, _) ← evaluationReport Xtr ytr weights bias
  let (valAcc, valBrier, valLL) ← evaluationReport Xva yva weights bias
  let valProbs ← Xva.mapM (probability weights bias)
  let baseLL ← baselineLogloss yva
  let adopt ← adoptable Xtr.length Xva.length (List.ofFn weights) valLL baseLL
  let f : Fitted :=
    ⟨Xtr.length, Xva.length, bias, weights, trainAcc, trainBrier, valAcc, valBrier, auc yva valProbs, baseLL, valLL⟩
  return if adopt then .adopted f else .refused f

/-- `main`, from the frames of the history to the verdict. -/
def verdict (cfg : Settings) (l2 : ℝ) (frames : List Payload) : Except Fault Ending := do
  let c := collectRows cfg (groupCycles frames)
  if c.X.length < 20 then return .insufficient
  else
    let X := c.X.map vectorOf
    let (coefficients, _) ← fitLogistic (X.take (trainEnd c)) (c.y.take (trainEnd c)) 0.1 6000 1e-9 l2
    judged (X.take (trainEnd c)) (c.y.take (trainEnd c)) (X.drop (trainEnd c)) (c.y.drop (trainEnd c))
      (fun j => coefficients j.succ) (coefficients 0)

/-- A minute of the window: its second, and the weight before it is rounded. -/
def decayRow (windowSeconds : ℝ) (i : ℕ) : Except Fault (ℕ × ℝ) := do
  let start := i * 60
  let tau := windowSeconds / 3.0
  let exponent ← quot (-(windowSeconds - start)) tau
  return (start, Real.exp exponent)

def writeDecayMatrix (cfg : Settings) : Except Fault (List (ℕ × ℝ)) :=
  (List.range (cfg.windowSeconds / 60 + 1)).mapM (decayRow cfg.windowSeconds)

/-- `main`, from the frames of the history on. -/
def calibrate (cfg : Settings) (l2 : ℝ) (frames : List Payload) : Except Fault Ending := do
  let ending ← verdict cfg l2 frames
  -- only an OSError is caught here
  let _ ← writeDecayMatrix cfg
  return ending

/-! ## Nothing raises after the fit -/

variable (weights : Row) (bias : ℝ)

/-- The posterior of a row. -/
def posterior (row : Row) : ℝ := Real.sigmoid (bias + ∑ j, weights j * row j)

theorem probability_ok (row : Row) : probability weights bias row = .ok (posterior weights bias row) := sigmoid_ok _

theorem probabilities_ok (X : List Row) : X.mapM (probability weights bias) = .ok (X.map (posterior weights bias)) := by
  have hfun : probability weights bias = fun row => (pure (posterior weights bias row) : Except Fault ℝ) := by
    funext row
    exact probability_ok weights bias row
  rw [hfun]
  exact List.mapM_pure

theorem metrics_ok (X : List Row) (y : List ℕ) : ∃ r, metrics X y weights bias = .ok r := by
  have hfold : ∀ (xs : List (Row × ℕ)) (acc : ℕ × ℝ), ∃ r, xs.foldlM (addMetric weights bias) acc = .ok r := by
    intro xs
    induction xs with
    | nil => exact fun acc => ⟨acc, rfl⟩
    | cons x xs ih =>
      intro acc
      rw [List.foldlM_cons, addMetric, probability_ok]
      exact ih _
  obtain ⟨⟨correct, brier⟩, hr⟩ := hfold (X.zip y) (0, 0)
  simp only [metrics, hr, ok_bind]
  split
  · exact ⟨_, rfl⟩
  · rename_i hy
    have hn : (y.length : ℝ) ≠ 0 := Nat.cast_ne_zero.mpr fun e => hy (List.length_eq_zero_iff.mp e)
    simp only [quot_ok hn, ok_bind]
    exact ⟨_, rfl⟩

/-- What a row adds to the loss. -/
def lossOf (x : ℕ × ℝ) : ℝ := -(x.1 * Real.log (clip x.2) + (1 - x.1) * Real.log (1 - clip x.2))

theorem foldlM_addLoss (xs : List (ℕ × ℝ)) : ∀ s : ℝ, xs.foldlM addLoss s = .ok (s + (xs.map lossOf).sum) := by
  induction xs with
  | nil =>
    intro s
    simp
    rfl
  | cons x xs ih =>
    intro s
    rw [List.foldlM_cons, addLoss_ok, ok_bind, ih, List.map_cons, List.sum_cons, ← add_assoc]
    rfl

/-- The mean of what the rows add; infinite without a label. -/
def lossIn (y : List ℕ) (probs : List ℝ) : WithTop ℝ :=
  if y = [] then ⊤ else ((((y.zip probs).map lossOf).sum / y.length : ℝ) : WithTop ℝ)

theorem logloss_ok (y : List ℕ) (probs : List ℝ) : logloss y probs = .ok (lossIn y probs) := by
  by_cases hy : y = []
  · rw [logloss, if_pos (List.length_eq_zero_iff.mpr hy), lossIn, if_pos hy]
  · have hlen : y.length ≠ 0 := fun e => hy (List.length_eq_zero_iff.mp e)
    rw [logloss, if_neg hlen, foldlM_addLoss, ok_bind, zero_add, quot_ok (Nat.cast_ne_zero.mpr hlen), ok_bind, lossIn, if_neg hy]
    rfl

def baselineOf (y : List ℕ) : ℝ := crossEntropy (clip (meanLabel y)) (clip (meanLabel y))

theorem baseline_ok (y : List ℕ) : baselineLogloss y = .ok (baselineOf y) := by
  by_cases hy : y = []
  · obtain ⟨h0, h1⟩ := clip_bounds 0
    have hmean : meanLabel [] = 0 := by simp [meanLabel]
    rw [hy, baselineLogloss, if_pos rfl, ok_bind]
    simp only [ln_ok h0, ln_ok (sub_pos.mpr h1), ok_bind, baselineOf, hmean, crossEntropy]
    rfl
  · exact baselineLogloss_ok hy

theorem evaluationReport_ok (X : List Row) (y : List ℕ) :
    ∃ acc brier, evaluationReport X y weights bias = .ok (acc, brier, lossIn y (X.map (posterior weights bias))) := by
  obtain ⟨⟨acc, brier⟩, hmetrics⟩ := metrics_ok weights bias X y
  refine ⟨acc, brier, ?_⟩
  simp only [evaluationReport, hmetrics, ok_bind, probabilities_ok, logloss_ok, baseline_ok]
  rfl

/-- The gate answers. -/
theorem adoptable_ok (rows valRows : ℕ) (valLL : WithTop ℝ) (baseLL : ℝ) :
    ∃ adopt, adoptable rows valRows (List.ofFn weights) valLL baseLL = .ok adopt := by
  unfold adoptable
  split
  · exact ⟨false, rfl⟩
  · split
    · rename_i hnone
      simp at hnone
    · split
      · exact ⟨false, rfl⟩
      · exact ⟨_, rfl⟩

/-- What the gate was asked about a fit, and its answer. -/
structure Judged (Xtr Xva : List Row) (yva : List ℕ) (f : Fitted) (adopt : Bool) : Prop where
  learned : f.weights = weights ∧ f.bias = bias
  counted : f.trainRows = Xtr.length ∧ f.valRows = Xva.length
  loss : f.modelLogloss = lossIn yva (Xva.map (posterior weights bias))
  gate : adoptable Xtr.length Xva.length (List.ofFn weights) (lossIn yva (Xva.map (posterior weights bias))) (baselineOf yva) =
    .ok adopt

theorem judged_ok (Xtr : List Row) (ytr : List ℕ) (Xva : List Row) (yva : List ℕ) :
    ∃ f adopt, judged Xtr ytr Xva yva weights bias = .ok (if adopt then .adopted f else .refused f) ∧
      Judged weights bias Xtr Xva yva f adopt := by
  obtain ⟨tacc, tbrier, htrain⟩ := evaluationReport_ok weights bias Xtr ytr
  obtain ⟨vacc, vbrier, hval⟩ := evaluationReport_ok weights bias Xva yva
  obtain ⟨adopt, hadopt⟩ := adoptable_ok weights Xtr.length Xva.length (lossIn yva (Xva.map (posterior weights bias))) (baselineOf yva)
  refine ⟨⟨Xtr.length, Xva.length, bias, weights, tacc, tbrier, vacc, vbrier, auc yva (Xva.map (posterior weights bias)),
    baselineOf yva, lossIn yva (Xva.map (posterior weights bias))⟩, adopt, ?_, ⟨rfl, rfl⟩, ⟨rfl, rfl⟩, rfl, hadopt⟩
  simp only [judged, htrain, hval, ok_bind, probabilities_ok, baseline_ok, hadopt]
  rfl

/-! ## When the script raises -/

variable {cfg : Settings} {frames : List Payload}

theorem fit_ok {X : List Row} (hX : X ≠ []) (y : List ℕ) (l2 : ℝ) :
    ∃ fit loss, fitLogistic X y 0.1 6000 1e-9 l2 = .ok (fit, loss) := by
  have hXn : X.map (standardise X) ≠ [] := by
    rw [Ne, List.map_eq_nil_iff]
    exact hX
  obtain ⟨⟨u, loss⟩, hu, -⟩ := descend_ok 0.1 1e-9 l2 y hXn 6000 (fun _ => 0) none
  exact ⟨_, loss, fitLogistic_eq hX y 0.1 6000 1e-9 l2 hu⟩

theorem Holds.split_labels {cycles : List (List Payload)} {c : Collection} (h : Holds cfg cycles c) :
    c.y.take (trainEnd c) = (cycles.take (max 1 (cycles.length * 4 / 5))).flatMap (labelsOf cfg) := by
  have hsame : ∀ cycle : List Payload, (rowsOf cfg cycle).length = (labelsOf cfg cycle).length := by
    intro cycle
    simp only [labelsOf, rowsOf, bySide_length]
  have hsizes : c.cycleSizes = (cycles.map (labelsOf cfg)).map List.length := by
    rw [h.sizes, List.map_map]
    exact List.map_congr_left fun cycle _ => hsame cycle
  have hsplit : splitCycles c = max 1 (cycles.length * 4 / 5) := by
    rw [splitCycles, h.sizes, List.length_map]
  rw [trainEnd, hsplit, hsizes, h.labels, List.flatMap_def, List.take_sum_flatten, ← List.map_take]
  rfl

/-- The rows and the labels of the training part are those of the cycles to train on. -/
theorem training_part (cfg : Settings) (frames : List Payload) :
    (collectRows cfg (groupCycles frames)).X.take (trainEnd (collectRows cfg (groupCycles frames))) =
        (trainingCycles frames).flatMap (rowsOf cfg) ∧
      (collectRows cfg (groupCycles frames)).y.take (trainEnd (collectRows cfg (groupCycles frames))) =
        (trainingCycles frames).flatMap (labelsOf cfg) := by
  have hheld : Holds cfg (countedCycles frames) (collectRows cfg (groupCycles frames)) := collected (groupCycles frames)
  exact ⟨hheld.split.1, hheld.split_labels⟩

/-- What is fitted: rows and labels. -/
def trainingRows (cfg : Settings) (frames : List Payload) : List Row := ((trainingCycles frames).flatMap (rowsOf cfg)).map vectorOf

/-- The three ends of the way to the verdict. -/
structure Runs (cfg : Settings) (l2 : ℝ) (frames : List Payload) : Prop where
  few : (collectRows cfg (groupCycles frames)).X.length < 20 → verdict cfg l2 frames = .ok .insufficient
  untrained : 20 ≤ (collectRows cfg (groupCycles frames)).X.length → trainingRows cfg frames = [] →
    verdict cfg l2 frames = .error .index
  fitted : 20 ≤ (collectRows cfg (groupCycles frames)).X.length → trainingRows cfg frames ≠ [] →
    ∃ fit loss, fitLogistic (trainingRows cfg frames) ((trainingCycles frames).flatMap (labelsOf cfg)) 0.1 6000 1e-9 l2 =
        .ok (fit, loss) ∧
      ∃ f, f.weights = (fun j => fit j.succ) ∧ f.bias = fit 0 ∧
        (verdict cfg l2 frames = .ok (.adopted f) ∨ verdict cfg l2 frames = .ok (.refused f))

theorem verdict_runs (cfg : Settings) (l2 : ℝ) (frames : List Payload) : Runs cfg l2 frames := by
  obtain ⟨hrows, hlabels⟩ := training_part cfg frames
  have htrain : ((collectRows cfg (groupCycles frames)).X.map vectorOf).take (trainEnd (collectRows cfg (groupCycles frames))) =
      trainingRows cfg frames := by
    rw [← List.map_take, hrows, trainingRows]
  refine ⟨fun hfew => ?_, fun henough hnone => ?_, fun henough hsome => ?_⟩
  · rw [verdict, if_pos hfew]
    rfl
  · simp only [verdict, if_neg (not_lt.mpr henough), htrain, hnone]
    rfl
  · obtain ⟨fit, loss, hfit⟩ := fit_ok hsome ((trainingCycles frames).flatMap (labelsOf cfg)) l2
    obtain ⟨f, adopt, hjudged, hf⟩ := judged_ok (fun j => fit j.succ) (fit 0) (trainingRows cfg frames)
      ((trainingCycles frames).flatMap (labelsOf cfg))
      (((collectRows cfg (groupCycles frames)).X.map vectorOf).drop (trainEnd (collectRows cfg (groupCycles frames))))
      ((collectRows cfg (groupCycles frames)).y.drop (trainEnd (collectRows cfg (groupCycles frames))))
    have hrun : verdict cfg l2 frames = .ok (if adopt then .adopted f else .refused f) := by
      simp only [verdict, if_neg (not_lt.mpr henough), htrain, hlabels, hfit, ok_bind, hjudged]
    refine ⟨fit, loss, hfit, f, hf.learned.1, hf.learned.2, ?_⟩
    cases adopt with
    | true => exact Or.inl hrun
    | false => exact Or.inr hrun

/-- The weights and the bias of a fit, adopted or not. -/
def Ending.learned : Ending → Option (Row × ℝ)
  | .insufficient => none
  | .refused f => some (f.weights, f.bias)
  | .adopted f => some (f.weights, f.bias)

/-- The verdicts on histories with the same cycles to train on, whatever cycles judge. -/
theorem verdict_unseen (cfg : Settings) (l2 : ℝ) {frames frames' : List Payload}
    (hrows : 20 ≤ (collectRows cfg (groupCycles frames)).X.length) (hrows' : 20 ≤ (collectRows cfg (groupCycles frames')).X.length)
    (h : trainingCycles frames = trainingCycles frames') :
    (verdict cfg l2 frames).map Ending.learned = (verdict cfg l2 frames').map Ending.learned := by
  have hruns := verdict_runs cfg l2 frames
  have hruns' := verdict_runs cfg l2 frames'
  have htrain : trainingRows cfg frames = trainingRows cfg frames' := by rw [trainingRows, trainingRows, h]
  by_cases hnone : trainingRows cfg frames = []
  · rw [hruns.untrained hrows hnone, hruns'.untrained hrows' (htrain ▸ hnone)]
  · obtain ⟨fit, loss, hfit, f, hweights, hbias, hrun⟩ := hruns.fitted hrows hnone
    obtain ⟨fit', loss', hfit', f', hweights', hbias', hrun'⟩ := hruns'.fitted hrows' (htrain ▸ hnone)
    rw [← htrain, ← h, hfit] at hfit'
    cases hfit'
    have hsame : (f.weights, f.bias) = (f'.weights, f'.bias) := by rw [hweights, hbias, hweights', hbias']
    rcases hrun with hrun | hrun <;> rcases hrun' with hrun' | hrun' <;> rw [hrun, hrun'] <;>
      simp only [Except.map, Ending.learned, hsame]

theorem calibrate_learned (cfg : Settings) (l2 : ℝ) (frames : List Payload) :
    (calibrate cfg l2 frames).map Ending.learned = (do
      let learned ← (verdict cfg l2 frames).map Ending.learned
      let _ ← writeDecayMatrix cfg
      return learned) := by
  rw [calibrate]
  cases verdict cfg l2 frames with
  | error fault => rfl
  | ok ending => cases writeDecayMatrix cfg <;> rfl

/-- Histories with the same cycles to train on teach the same, whatever cycles judge. -/
theorem validation_unseen (cfg : Settings) (l2 : ℝ) {frames frames' : List Payload}
    (hrows : 20 ≤ (collectRows cfg (groupCycles frames)).X.length) (hrows' : 20 ≤ (collectRows cfg (groupCycles frames')).X.length)
    (h : trainingCycles frames = trainingCycles frames') :
    (calibrate cfg l2 frames).map Ending.learned = (calibrate cfg l2 frames').map Ending.learned := by
  rw [calibrate_learned, calibrate_learned, verdict_unseen cfg l2 hrows hrows' h]

/-- Ten minutes and full time of m2. -/
def firstMatch : List Payload :=
  ((List.range 10).map fun (k : ℕ) => polled "m2" (Text.itoa k ++ "'") k) ++ [polled "m2" "FULLTIME" 10]

theorem another_last_match_teaches_the_same :
    (calibrate Settings.default 1e-3 (firstMatch ++ [polled "m1" "HALFTIME" 11, polled "m1" "FULLTIME" 12])).map Ending.learned =
      (calibrate Settings.default 1e-3 (firstMatch ++ [polled "m3" "88'" 11, polled "m3" "FULLTIME" 12])).map Ending.learned :=
  validation_unseen Settings.default 1e-3 (by decide +kernel) (by decide +kernel) (by decide +kernel)

/-! ## What is adopted -/

theorem adoptable_iff {rows valRows : ℕ} {ws : List ℝ} {valLL : WithTop ℝ} {baseLL : ℝ} :
    adoptable rows valRows ws valLL baseLL = .ok true ↔
      100 ≤ rows ∧ 20 ≤ valRows ∧ (∃ w ∈ ws, 1e-3 ≤ |w|) ∧ valLL < ((baseLL - 1e-9 : ℝ) : WithTop ℝ) := by
  unfold adoptable
  refine ⟨fun h => ?_, fun h => ?_⟩
  · split at h
    · cases h
    · rename_i hrows
      split at h
      · cases h
      · rename_i most hmost
        split at h
        · cases h
        · rename_i hweight
          obtain ⟨w, hw, hwmost⟩ := List.mem_map.mp (List.max?_mem hmost)
          refine ⟨by omega, by omega, ⟨w, hw, ?_⟩, of_decide_eq_true (Except.ok.inj h)⟩
          rw [hwmost]
          exact not_lt.mp hweight
  · obtain ⟨htrain, hval, ⟨w, hw, hweight⟩, hless⟩ := h
    rw [if_neg (by omega)]
    cases hmost : (ws.map (|·|)).max? with
    | none =>
      rw [List.max?_eq_none_iff, List.map_eq_nil_iff] at hmost
      rw [hmost] at hw
      cases hw
    | some most =>
      have hle := (List.max?_eq_some_iff.mp hmost).2 |w| (List.mem_map_of_mem hw)
      simp only
      rw [if_neg (not_lt.mpr (hweight.trans hle)), decide_eq_true hless]

theorem log_tiny : -40 ≤ Real.log 1e-12 ∧ -2e-12 ≤ Real.log (1 - 1e-12) := by
  have htwo := Real.log_le_sub_one_of_pos (show (0 : ℝ) < 2 by norm_num)
  have hpow : Real.log (2 ^ 40) = 40 * Real.log 2 := by
    rw [Real.log_pow]
    norm_num
  have hle : Real.log ((2 ^ 40)⁻¹) ≤ Real.log 1e-12 := Real.log_le_log (by positivity) (by norm_num)
  have hnear := Real.one_sub_inv_le_log_of_pos (show (0 : ℝ) < 1 - 1e-12 by norm_num)
  have hquot : -2e-12 ≤ 1 - (1 - 1e-12 : ℝ)⁻¹ := by norm_num
  rw [Real.log_inv, hpow] at hle
  exact ⟨by linarith, by linarith⟩

/-- A baseline that is clipped is next to nothing. -/
theorem clipped_baseline {y : List ℕ} (h : clip (meanLabel y) ≠ meanLabel y) : baselineOf y < 1e-9 := by
  obtain ⟨hlow, hhigh⟩ := log_tiny
  have hends : clip (meanLabel y) = 1e-12 ∨ clip (meanLabel y) = 1 - 1e-12 := by
    rcases lt_or_ge (meanLabel y) 1e-12 with hless | hge
    · left
      rw [clip, min_eq_left (by linarith), max_eq_right hless.le]
    · right
      rcases lt_or_ge (1 - 1e-12) (meanLabel y) with hmore | hle
      · rw [clip, min_eq_right hmore.le, max_eq_left (by norm_num)]
      · exact absurd (clip_of_mem hge hle) h
  rcases hends with hend | hend
  · rw [baselineOf, hend, crossEntropy]
    linarith
  · have hback : (1 : ℝ) - (1 - 1e-12) = 1e-12 := by norm_num
    rw [baselineOf, hend, crossEntropy, hback]
    linarith

theorem lossOf_nonneg {x : ℕ × ℝ} (h : x.1 = 0 ∨ x.1 = 1) : 0 ≤ lossOf x := by
  obtain ⟨h0, h1⟩ := clip_bounds x.2
  have hlikely := Real.log_nonpos h0.le h1.le
  have hunlikely := Real.log_nonpos (sub_nonneg.mpr h1.le) (by linarith : 1 - clip x.2 ≤ 1)
  rw [lossOf]
  rcases h with h | h <;> rw [h] <;> push_cast <;> linarith

theorem lossIn_nonneg {y : List ℕ} (hy : ∀ v ∈ y, v = 0 ∨ v = 1) (probs : List ℝ) : 0 ≤ lossIn y probs := by
  rw [lossIn]
  split
  · exact le_top
  · refine WithTop.coe_le_coe.mpr (div_nonneg (List.sum_nonneg fun l hl => ?_) (Nat.cast_nonneg _))
    obtain ⟨x, hx, rfl⟩ := List.mem_map.mp hl
    exact lossOf_nonneg (hy x.1 (List.of_mem_zip hx).1)

/-- Labels of one class have a mean of 0 or 1. -/
theorem both_labels {y : List ℕ} (hy : ∀ v ∈ y, v = 0 ∨ v = 1) (h0 : 0 < meanLabel y) (h1 : meanLabel y < 1) : 1 ∈ y ∧ 0 ∈ y := by
  have hne : y ≠ [] := by
    rintro rfl
    simp [meanLabel] at h0
  have hn : (0 : ℝ) < y.length := Nat.cast_pos.mpr (List.length_pos_iff.mpr hne)
  constructor
  · by_contra hno
    have hzero : ∀ v ∈ y, v = 0 := fun v hv => (hy v hv).resolve_right fun e => hno (e ▸ hv)
    have hsum : y.sum = 0 := List.sum_eq_zero hzero
    rw [meanLabel, hsum, Nat.cast_zero, zero_div] at h0
    exact lt_irrefl _ h0
  · by_contra hno
    have hone : ∀ v ∈ y, v = 1 := fun v hv => (hy v hv).resolve_left fun e => hno (e ▸ hv)
    have hsum : y.sum = y.length := by
      rw [List.eq_replicate_of_mem hone]
      simp
    rw [meanLabel, hsum, div_self hn.ne'] at h1
    exact lt_irrefl _ h1

/-- Rows enough, a weight, and a loss below that of every constant on the rows that judge,
    which are of both outcomes. -/
structure Earned (yva : List ℕ) (f : Fitted) : Prop where
  rows : 100 ≤ f.trainRows ∧ 20 ≤ f.valRows
  weight : ∃ j, 1e-3 ≤ |f.weights j|
  both : 1 ∈ yva ∧ 0 ∈ yva
  beats : ∀ p, ∃ model constant : ℝ, f.modelLogloss = model ∧
    logloss yva (List.replicate yva.length p) = .ok (constant : WithTop ℝ) ∧ model + 1e-9 < constant

theorem adopted_beats_constants {Xtr : List Row} {ytr : List ℕ} {Xva : List Row} {yva : List ℕ}
    (hy : ∀ v ∈ yva, v = 0 ∨ v = 1) {f : Fitted} (h : judged Xtr ytr Xva yva weights bias = .ok (.adopted f)) :
    Earned yva f := by
  obtain ⟨g, adopt, hrun, hg⟩ := judged_ok weights bias Xtr ytr Xva yva
  rw [hrun] at h
  cases adopt with
  | false => cases h
  | true =>
    cases h
    obtain ⟨htrain, hval, hweight, hless⟩ := adoptable_iff.mp hg.gate
    have hnonneg := lossIn_nonneg hy (Xva.map (posterior weights bias))
    have hbase : (0 : ℝ) < baselineOf yva - 1e-9 := WithTop.coe_lt_coe.mp (hnonneg.trans_lt hless)
    have hclip : clip (meanLabel yva) = meanLabel yva := by
      by_contra hclip
      have hsmall := clipped_baseline hclip
      linarith
    obtain ⟨h0, h1⟩ := clip_bounds (meanLabel yva)
    rw [hclip] at h0 h1
    have hboth := both_labels hy h0 h1
    have hne : yva ≠ [] := List.ne_nil_of_mem hboth.1
    obtain ⟨model, hmodel⟩ := WithTop.ne_top_iff_exists.mp hless.ne_top
    refine ⟨by rw [hg.counted.1, hg.counted.2]; exact ⟨htrain, hval⟩, ?_, hboth, fun p => ?_⟩
    · obtain ⟨w, hw, hle⟩ := hweight
      obtain ⟨j, rfl⟩ := (List.mem_ofFn' _ _).mp hw
      exact ⟨j, by rw [hg.learned.1]; exact hle⟩
    · refine ⟨model, _, by rw [hg.loss, hmodel], logloss_constant hne p, ?_⟩
      have hbest := crossEntropy_self_le h0 h1 (clip_bounds p).1 (clip_bounds p).2
      rw [← hmodel] at hless
      have hgap := WithTop.coe_lt_coe.mp hless
      rw [baselineOf, hclip] at hgap
      linarith

def up : Row := fun _ => 1

def down : Row := fun _ => -1

/-- Three to one for the row that is up. -/
def threeToOne : Row := fun _ => logit (3 / 4) / 5

theorem posterior_up : posterior threeToOne 0 up = 3 / 4 ∧ posterior threeToOne 0 down = 1 / 4 := by
  have hsum : (0 : ℝ) + ∑ j, threeToOne j * up j = logit (3 / 4) := by
    simp [threeToOne, up]
    ring
  have hsum' : (0 : ℝ) + ∑ j, threeToOne j * down j = -logit (3 / 4) := by
    simp [threeToOne, down]
    ring
  have hback : (1 : ℝ) - 3 / 4 = 1 / 4 := by norm_num
  rw [posterior, posterior, hsum, hsum']
  exact ⟨sigmoid_logit (by norm_num) (by norm_num), (sigmoid_neg_logit (by norm_num) (by norm_num)).trans hback⟩

/-- Half of them up, half of them down. -/
def halves : List Row := List.replicate 10 up ++ List.replicate 10 down

def halfLabels : List ℕ := List.replicate 10 1 ++ List.replicate 10 0

theorem halves_loss : lossIn halfLabels (halves.map (posterior threeToOne 0)) = ((-Real.log (3 / 4) : ℝ) : WithTop ℝ) := by
  obtain ⟨hup, hdown⟩ := posterior_up
  have hclip : clip (3 / 4) = 3 / 4 := clip_of_mem (by norm_num) (by norm_num)
  have hclip' : clip (1 / 4) = 1 / 4 := clip_of_mem (by norm_num) (by norm_num)
  have hback : (1 : ℝ) - 1 / 4 = 3 / 4 := by norm_num
  have hright : lossOf (1, 3 / 4) = -Real.log (3 / 4) := by
    simp only [lossOf, hclip]
    push_cast
    ring
  have hwrong : lossOf (0, 1 / 4) = -Real.log (3 / 4) := by
    simp only [lossOf, hclip', hback]
    push_cast
    ring
  rw [lossIn, if_neg (by decide), halves, List.map_append, List.map_replicate, List.map_replicate, hup, hdown, halfLabels,
    List.zip_append (by simp), List.zip_replicate', List.zip_replicate', List.map_append, List.map_replicate, List.map_replicate,
    hright, hwrong, List.sum_append, List.sum_replicate, List.length_append, List.length_replicate, List.length_replicate]
  congr 1
  push_cast [nsmul_eq_mul]
  ring

theorem halves_baseline : baselineOf halfLabels = Real.log 2 := by
  have hmean : meanLabel halfLabels = 1 / 2 := by
    simp [meanLabel, halfLabels]
    norm_num
  have hclip : clip (1 / 2) = 1 / 2 := clip_of_mem (by norm_num) (by norm_num)
  have hhalf : (1 : ℝ) - 1 / 2 = 1 / 2 := by norm_num
  have hlog : Real.log (1 / 2) = -Real.log 2 := by rw [one_div, Real.log_inv]
  rw [baselineOf, hmean, hclip, crossEntropy, hhalf, hlog]
  ring

theorem a_good_fit_is_adopted :
    ∃ f, judged (List.replicate 100 up) (List.replicate 100 1) halves halfLabels threeToOne 0 = .ok (.adopted f) ∧
      Earned halfLabels f := by
  obtain ⟨f, adopt, hrun, hf⟩ := judged_ok threeToOne 0 (List.replicate 100 up) (List.replicate 100 1) halves halfLabels
  have hthree : 2 / 3 ≤ logit (3 / 4) := by
    have h := Real.one_sub_inv_le_log_of_pos (show (0 : ℝ) < 3 by norm_num)
    have hodds : (3 / 4 : ℝ) / (1 - 3 / 4) = 3 := by norm_num
    rw [logit, hodds]
    norm_num at h
    exact h
  have hgap : -Real.log (3 / 4) < Real.log 2 - 1e-9 := by
    have h := Real.one_sub_inv_le_log_of_pos (show (0 : ℝ) < 2 * (3 / 4) by norm_num)
    rw [Real.log_mul (by norm_num) (by norm_num)] at h
    norm_num at h
    linarith
  have hadopt : adopt = true := by
    have hgate := hf.gate
    rw [halves_loss, halves_baseline, adoptable_iff.mpr ⟨by simp, by decide, ⟨threeToOne 0, by simp, ?_⟩,
      WithTop.coe_lt_coe.mpr hgap⟩] at hgate
    · exact (Except.ok.inj hgate).symm
    · rw [threeToOne, abs_of_pos (by linarith)]
      linarith
  subst hadopt
  exact ⟨f, hrun, adopted_beats_constants threeToOne 0 (by decide) hrun⟩

end

end CasuyaLive.Calibration
