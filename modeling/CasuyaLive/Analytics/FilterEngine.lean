/-
  CasuyaLive.Analytics.FilterEngine — the high-odds filter (analytics-engine-py,
  src/filter_engine.py: `score_inputs`, `true_probability`, `best_side`, `evaluate`).

  The score is an exact rational; the posterior is real, with the real power of the
  source's own constant for e. The power raises once it leaves the range of a double, unless
  the settings ask for exact arithmetic, and a division by zero raises. The reason of a
  verdict is the data its text is printed from.
-/

import Mathlib.Analysis.SpecialFunctions.Pow.Real
import CasuyaLive.Analytics.FeatureStudy

namespace CasuyaLive.Analytics

open CasuyaLive.Lib

/-- The fitted weights, in the order of the feature columns, and the bias. -/
structure Calibration where
  weights : List ℚ
  bias : ℚ

/-- What the environment fixes, and the calibration file when it is there. -/
structure FilterSettings where
  minOdds : ℚ
  maxOdds : ℚ
  /-- Read from the environment, and by nothing after that. -/
  minDrawOdds : ℚ
  drawProbCap : ℚ
  selectDraw : Bool
  marginSlack : ℚ
  temperature : ℚ
  maxTrueProb : ℚ
  calib : Option Calibration
  /-- Reals with no largest double. -/
  exact : Bool

def shimWeights : List ℚ := [35 / 100, 30 / 100, 20 / 100, 15 / 100, 120 / 100]

/-- The weights file in the repository. -/
def shippedCalibration : Calibration :=
  ⟨[12328 / 1000000, -8049 / 1000000, 203 / 1000000, -2067657 / 1000000, -4298312 / 1000000], 374806 / 1000000⟩

def FilterSettings.default : FilterSettings :=
  ⟨5, 8, 8, 30 / 100, false, 20 / 1000, 3 / 2, 85 / 100, some shippedCalibration, false⟩

/-- Why a verdict does not execute. -/
inductive Reason where
  /-- No market leg in the range. -/
  | noLeg (minOdds maxOdds : ℚ)
  /-- The posterior is not above the implied probability and the slack. -/
  | noEdge (trueProb impliedProb : ℝ)

structure Verdict where
  shouldExecute : Bool
  matchID : String
  marketID : String
  side : String
  odds : ℚ
  impliedProb : ℝ
  trueProb : ℝ
  features : Option Features
  reasons : List Reason

/-- The x-vector of the logistic score; the away perspective inverts the gaps. -/
def scoreInputs (snap : MomentumFrame) (side : String) : List ℚ :=
  let invert := side == "away"
  let behind := (snap.features.map (·.homeBehind)).getD 0
  let behindTarget :=
    if !invert then behind
    else if 0 < (snap.features.map (·.scorePressure)).getD 0 ∧ behind = 0 then 1
    else 0
  let gap := (snap.features.map (·.possessionGap)).getD 0
  let acc := (snap.features.map (·.shotAccuracyGap)).getD 0
  let div := (snap.features.map (·.divergence)).getD 0
  [if invert then -div else div, (snap.features.map (·.dangerIntensity)).getD 1, if invert then -gap else gap,
    if invert then -acc else acc, behindTarget]

/-- The logit before the temperature. -/
def rawScore (cfg : FilterSettings) (x : List ℚ) : ℚ :=
  match cfg.calib with
  | some c => c.bias + (List.zipWith (· * ·) c.weights x).sum
  | none => (List.zipWith (· * ·) shimWeights x).sum

/-- From here on a result rounds past the largest double. -/
def floatLimit : ℝ := ((2 ^ 1024 - 2 ^ 970 : ℕ) : ℝ)

noncomputable section

open Classical

/-- The source's constant for e, to the power of minus the score. -/
def power (score : ℚ) : ℝ := (2.718281828459045 : ℝ) ^ (-(score : ℝ))

/-- The posterior of home or away. -/
def legProbability (cfg : FilterSettings) (snap : MomentumFrame) (side : String) : Except Raised ℝ :=
  if cfg.temperature = 0 then .error .zeroDivision
  else
    let score := rawScore cfg (scoreInputs snap side) / cfg.temperature
    if cfg.exact = false ∧ floatLimit ≤ power score then .error .overflow
    else .ok (min (1 / (1 + power score)) cfg.maxTrueProb)

/-- The posterior of a side; the draw takes what the other two leave. -/
def trueProbability (cfg : FilterSettings) (snap : MomentumFrame) (side : String) : Except Raised ℝ :=
  if side = "draw" then do
    let away ← legProbability cfg snap "away"
    let home ← legProbability cfg snap "home"
    return min (max 0 (1 - away - home)) cfg.drawProbCap
  else legProbability cfg snap side

def impliedProbability (odds : ℚ) : Except Raised ℝ := if odds = 0 then .error .zeroDivision else .ok (1 / (odds : ℝ))

def priceOf (odds : Table String ℚ) (side : String) : ℚ := (odds.get? side).getD 0

/-- The stronger of the best leg so far and this one; the earlier one keeps a tie. -/
def better (cfg : FilterSettings) (snap : MomentumFrame) (best : Option (String × ℝ × ℝ)) (side : String) :
    Except Raised (Option (String × ℝ × ℝ)) :=
  let price := priceOf snap.odds side
  if price < cfg.minOdds ∨ cfg.maxOdds < price then return best
  else do
    let trueProb ← trueProbability cfg snap side
    let implied ← impliedProbability price
    match best with
    | none => return some (side, trueProb, implied)
    | some b => if b.2.1 - b.2.2 < trueProb - implied then return some (side, trueProb, implied) else return best

def sides (cfg : FilterSettings) : List String := if cfg.selectDraw then ["home", "away", "draw"] else ["home", "away"]

/-- The side of the strongest edge with its probabilities, no side when no leg is priced in
    the range. -/
def bestSide (cfg : FilterSettings) (snap : MomentumFrame) : Except Raised (String × ℝ × ℝ) := do
  let best ← (sides cfg).foldlM (better cfg snap) none
  return best.getD ("", 0, 0)

/-- The trigger rule on a snapshot. -/
def evaluate (cfg : FilterSettings) (snap : MomentumFrame) : Except Raised Verdict :=
  if snap.odds.entries.isEmpty then return ⟨false, snap.matchID, snap.marketID, "", 0, 0, 0, none, []⟩
  else do
    let (side, trueProb, implied) ← bestSide cfg snap
    let price := priceOf snap.odds side
    if side = "" then
      return ⟨false, snap.matchID, snap.marketID, side, price, implied, trueProb, snap.features,
        [.noLeg cfg.minOdds cfg.maxOdds]⟩
    else
      return ⟨decide (implied + cfg.marginSlack < trueProb), snap.matchID, snap.marketID, side, price, round4 implied,
        round4 trueProb, snap.features, if implied + cfg.marginSlack < trueProb then [] else [.noEdge trueProb implied]⟩

/-! ## A leg with no score against it -/

theorem power_le_one {score : ℚ} (h : 0 ≤ score) : power score ≤ 1 := by
  have hs : -(score : ℝ) ≤ 0 := by
    rw [neg_nonpos]
    exact_mod_cast h
  exact Real.rpow_le_one_of_one_le_of_nonpos (by norm_num) hs

theorem power_pos (score : ℚ) : 0 < power score := Real.rpow_pos_of_pos (by norm_num) _

theorem one_lt_floatLimit : (1 : ℝ) < floatLimit := Nat.one_lt_cast.mpr (by decide +kernel)

/-- A leg has a posterior when the temperature divides and the power is a double. -/
theorem legProbability_eq_ok {cfg : FilterSettings} {snap : MomentumFrame} {side : String} {p : ℝ} :
    legProbability cfg snap side = .ok p ↔
      cfg.temperature ≠ 0 ∧
      ¬ (cfg.exact = false ∧ floatLimit ≤ power (rawScore cfg (scoreInputs snap side) / cfg.temperature)) ∧
      min (1 / (1 + power (rawScore cfg (scoreInputs snap side) / cfg.temperature))) cfg.maxTrueProb = p := by
  unfold legProbability
  by_cases ht : cfg.temperature = 0
  · simp [ht]
  · rw [if_neg ht]
    by_cases hover : cfg.exact = false ∧ floatLimit ≤ power (rawScore cfg (scoreInputs snap side) / cfg.temperature)
    · rw [if_pos hover]
      refine ⟨fun h => ?_, fun h => absurd hover h.2.1⟩
      cases h
    · rw [if_neg hover, Except.ok.injEq]
      exact ⟨fun h => ⟨ht, hover, h⟩, fun h => h.2.2⟩

/-- A score that is not negative gives its leg at least an even chance. -/
theorem legProbability_half {cfg : FilterSettings} {snap : MomentumFrame} {side : String} (ht : 0 < cfg.temperature)
    (hcap : 1 / 2 ≤ cfg.maxTrueProb) (h : 0 ≤ rawScore cfg (scoreInputs snap side)) :
    ∃ p, legProbability cfg snap side = .ok p ∧ 1 / 2 ≤ p := by
  have hscore : 0 ≤ rawScore cfg (scoreInputs snap side) / cfg.temperature := div_nonneg h ht.le
  have hle := power_le_one hscore
  have hpos := power_pos (rawScore cfg (scoreInputs snap side) / cfg.temperature)
  refine ⟨min (1 / (1 + power (rawScore cfg (scoreInputs snap side) / cfg.temperature))) cfg.maxTrueProb, ?_, ?_⟩
  · exact legProbability_eq_ok.mpr ⟨ht.ne', fun hover => not_le.mpr (hle.trans_lt one_lt_floatLimit) hover.2, rfl⟩
  · refine le_min ?_ ?_
    · rw [div_le_div_iff₀ (by norm_num) (by linarith)]
      linarith
    · have : ((1 / 2 : ℚ) : ℝ) ≤ cfg.maxTrueProb := by exact_mod_cast hcap
      simpa using this

end

end CasuyaLive.Analytics
