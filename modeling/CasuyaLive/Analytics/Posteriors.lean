/-
  CasuyaLive.Analytics.Posteriors — the posteriors of one snapshot, and the marker of the
  side behind (analytics-engine-py, src/filter_engine.py: `true_probability`,
  `score_inputs`).

  (1) `Coherent`: home, away and draw get chances that are not negative and sum to at most
  1. Home and away are scored apart. What speaks for one side speaks against the other
  (`opposed`) and cancels in the sum of the two scores; the bias, the danger and the marker
  (`shared`) do not. `posteriors_coherent_iff`: under the default caps the market is
  coherent exactly when the shared parts do not sum above zero, or when one leg scores so
  low that it fits beside a capped one. The shipped bias is above zero, so a goalless match
  with little danger is priced at more than 1 (`a_goalless_market_is_overfull`).

  (2) `MarksTrailing`: the last input of a leg is 1 exactly for the side behind. The away
  marker is made of the goal sum and of the home marker: it also marks the away side of a
  level match with goals (`marksTrailing_iff`).
-/

import CasuyaLive.Analytics.FilterEngine
import CasuyaLive.Lib.Logistic

namespace CasuyaLive.Analytics

open CasuyaLive.Lib

/-! ## One market -/

/-- The three posteriors of a snapshot are there, none is negative and their sum is at
    most 1. -/
def Coherent (cfg : FilterSettings) (snap : MomentumFrame) : Prop :=
  ∃ home away draw, trueProbability cfg snap "home" = .ok home ∧ trueProbability cfg snap "away" = .ok away ∧
    trueProbability cfg snap "draw" = .ok draw ∧ 0 ≤ home ∧ 0 ≤ away ∧ 0 ≤ draw ∧ home + away + draw ≤ 1

def weightsOf (cfg : FilterSettings) : List ℚ := (cfg.calib.map (·.weights)).getD shimWeights

def biasOf (cfg : FilterSettings) : ℚ := (cfg.calib.map (·.bias)).getD 0

/-- The part of the score that the two legs see with opposite signs. -/
def opposed (cfg : FilterSettings) (snap : MomentumFrame) : ℚ :=
  match weightsOf cfg, scoreInputs snap "home" with
  | [w₁, _, w₃, w₄, _], [div, _, gap, acc, _] => w₁ * div + w₃ * gap + w₄ * acc
  | _, _ => 0

/-- The part that speaks for either leg: bias, danger and the marker of the side behind. -/
def shared (cfg : FilterSettings) (snap : MomentumFrame) (side : String) : ℚ :=
  match weightsOf cfg, scoreInputs snap side with
  | [_, w₂, _, _, w₅], [_, danger, _, _, behind] => biasOf cfg + w₂ * danger + w₅ * behind
  | _, _ => 0

theorem rawScore_eq (cfg : FilterSettings) (x : List ℚ) :
    rawScore cfg x = biasOf cfg + (List.zipWith (· * ·) (weightsOf cfg) x).sum := by
  cases hc : cfg.calib <;> simp [rawScore, weightsOf, biasOf, hc]

variable {cfg : FilterSettings}

theorem rawScore_home {w₁ w₂ w₃ w₄ w₅ : ℚ} (hw : weightsOf cfg = [w₁, w₂, w₃, w₄, w₅]) (snap : MomentumFrame) :
    rawScore cfg (scoreInputs snap "home") = shared cfg snap "home" + opposed cfg snap := by
  simp only [rawScore_eq, shared, opposed, hw, scoreInputs, List.zipWith_cons_cons, List.zipWith_nil_left, List.sum_cons,
    List.sum_nil]
  ring

theorem rawScore_away {w₁ w₂ w₃ w₄ w₅ : ℚ} (hw : weightsOf cfg = [w₁, w₂, w₃, w₄, w₅]) (snap : MomentumFrame) :
    rawScore cfg (scoreInputs snap "away") = shared cfg snap "away" - opposed cfg snap := by
  simp [rawScore_eq, shared, opposed, hw, scoreInputs]
  ring

/-- The score at the cap, before the temperature. -/
noncomputable def capScore (cfg : FilterSettings) : ℝ :=
  cfg.temperature * logit cfg.maxTrueProb / Real.log 2.718281828459045

/-- The shared parts do not sum above zero, or one leg scores so low that it fits beside a
    capped one. -/
def RoomForBoth (cfg : FilterSettings) (snap : MomentumFrame) : Prop :=
  shared cfg snap "home" + shared cfg snap "away" ≤ 0 ∨
    ((shared cfg snap "home" + opposed cfg snap : ℚ) : ℝ) ≤ -capScore cfg ∨
    ((shared cfg snap "away" - opposed cfg snap : ℚ) : ℝ) ≤ -capScore cfg

theorem log_base_pos : 0 < Real.log 2.718281828459045 := Real.log_pos (by norm_num)

/-- In exact arithmetic a leg gets a capped logistic chance. -/
theorem legProbability_exact (hexact : cfg.exact = true) (ht : cfg.temperature ≠ 0) (snap : MomentumFrame) (side : String) :
    legProbability cfg snap side =
      .ok (min (Real.sigmoid (Real.log 2.718281828459045 * (rawScore cfg (scoreInputs snap side) / cfg.temperature : ℚ)))
        cfg.maxTrueProb) := by
  have hover : ¬ (cfg.exact = false ∧
      floatLimit ≤ power (rawScore cfg (scoreInputs snap side) / cfg.temperature)) := by simp [hexact]
  refine legProbability_eq_ok.mpr ⟨ht, hover, ?_⟩
  rw [power, one_div_one_add_rpow (by norm_num)]

theorem low_iff (ht : 0 < cfg.temperature) (q : ℚ) :
    Real.log 2.718281828459045 * (q / cfg.temperature : ℚ) ≤ -logit cfg.maxTrueProb ↔ (q : ℝ) ≤ -capScore cfg := by
  have htemp : (0 : ℝ) < cfg.temperature := by exact_mod_cast ht
  have hlog := log_base_pos
  rw [capScore, Rat.cast_div, ← neg_div, le_div_iff₀ hlog, ← mul_div_assoc, div_le_iff₀ htemp]
  constructor
  · intro h; linarith
  · intro h; linarith

theorem trueProbability_leg {side : String} (h : side ≠ "draw") (snap : MomentumFrame) :
    trueProbability cfg snap side = legProbability cfg snap side := by
  rw [trueProbability, if_neg h]

theorem trueProbability_draw {snap : MomentumFrame} {home away : ℝ} (hh : legProbability cfg snap "home" = .ok home)
    (ha : legProbability cfg snap "away" = .ok away) :
    trueProbability cfg snap "draw" = .ok (min (max 0 (1 - away - home)) cfg.drawProbCap) := by
  simp [trueProbability, hh, ha, bind, Except.bind, pure, Except.pure]

/-- The draw takes no more than the legs leave, so the legs decide. -/
theorem coherent_legs {snap : MomentumFrame} {home away : ℝ} (hh : legProbability cfg snap "home" = .ok home)
    (ha : legProbability cfg snap "away" = .ok away) (hh0 : 0 ≤ home) (ha0 : 0 ≤ away) (hdraw : 0 ≤ cfg.drawProbCap) :
    Coherent cfg snap ↔ home + away ≤ 1 := by
  have hcap : (0 : ℝ) ≤ cfg.drawProbCap := by exact_mod_cast hdraw
  have hhome := (trueProbability_leg (by decide) snap).trans hh
  have haway := (trueProbability_leg (by decide) snap).trans ha
  have hrest := trueProbability_draw hh ha
  constructor
  · intro hcoherent
    obtain ⟨h, a, d, hh', ha', -, -, -, hd0, hle⟩ := hcoherent
    rw [hhome] at hh'
    rw [haway] at ha'
    cases hh'
    cases ha'
    linarith
  · intro hle
    refine ⟨home, away, _, hhome, haway, hrest, hh0, ha0, le_min (le_max_left _ _) hcap, ?_⟩
    have hdrawn := min_le_left (max 0 (1 - away - home)) (cfg.drawProbCap : ℝ)
    rw [max_eq_right (by linarith)] at hdrawn ⊢
    linarith

/-- The default filter's caps and temperature are one case of these. -/
theorem coherent_iff {w₁ w₂ w₃ w₄ w₅ : ℚ} (hw : weightsOf cfg = [w₁, w₂, w₃, w₄, w₅]) (hexact : cfg.exact = true)
    (ht : 0 < cfg.temperature) (hhalf : 1 / 2 < cfg.maxTrueProb) (hcap : cfg.maxTrueProb < 1) (hdraw : 0 ≤ cfg.drawProbCap)
    (snap : MomentumFrame) : Coherent cfg snap ↔ RoomForBoth cfg snap := by
  have hhalf' : (1 / 2 : ℝ) < cfg.maxTrueProb := by
    have : ((1 / 2 : ℚ) : ℝ) < cfg.maxTrueProb := by exact_mod_cast hhalf
    simpa using this
  have hcap' : (cfg.maxTrueProb : ℝ) < 1 := by exact_mod_cast hcap
  have hlog := log_base_pos
  have htemp : (0 : ℝ) < cfg.temperature := by exact_mod_cast ht
  have hhome := legProbability_exact hexact ht.ne' snap "home"
  have haway := legProbability_exact hexact ht.ne' snap "away"
  rw [rawScore_home hw] at hhome
  rw [rawScore_away hw] at haway
  -- the sum of the two logits is the sum of the shared parts, scaled
  have hsum : Real.log 2.718281828459045 * ((shared cfg snap "home" + opposed cfg snap) / cfg.temperature : ℚ) +
      Real.log 2.718281828459045 * ((shared cfg snap "away" - opposed cfg snap) / cfg.temperature : ℚ) ≤ 0 ↔
      shared cfg snap "home" + shared cfg snap "away" ≤ 0 := by
    have hscale : Real.log 2.718281828459045 * ((shared cfg snap "home" + opposed cfg snap) / cfg.temperature : ℚ) +
        Real.log 2.718281828459045 * ((shared cfg snap "away" - opposed cfg snap) / cfg.temperature : ℚ) =
        Real.log 2.718281828459045 / cfg.temperature * (shared cfg snap "home" + shared cfg snap "away" : ℚ) := by
      push_cast
      ring
    rw [hscale, ← smul_eq_mul, smul_nonpos_iff_nonpos_of_pos_left (div_pos hlog htemp)]
    exact_mod_cast Iff.rfl
  have hlegs := coherent_legs hhome haway (le_min (Real.sigmoid_nonneg _) (by linarith))
    (le_min (Real.sigmoid_nonneg _) (by linarith)) hdraw
  rw [hlegs, capped_add_le_one_iff hhalf' hcap', hsum, low_iff ht, low_iff ht, RoomForBoth]

/-- Under the built-in or the shipped weights, in exact arithmetic and with the default
    temperature and caps. -/
theorem posteriors_coherent_iff {cfg : FilterSettings} (hcalib : cfg.calib = none ∨ cfg.calib = some shippedCalibration)
    (hexact : cfg.exact = true) (ht : cfg.temperature = 3 / 2) (hcap : cfg.maxTrueProb = 85 / 100)
    (hdraw : cfg.drawProbCap = 30 / 100) (snap : MomentumFrame) : Coherent cfg snap ↔ RoomForBoth cfg snap := by
  have hpos : 0 < cfg.temperature := by rw [ht]; norm_num
  have hhalf : 1 / 2 < cfg.maxTrueProb := by rw [hcap]; norm_num
  have hone : cfg.maxTrueProb < 1 := by rw [hcap]; norm_num
  have hrest : 0 ≤ cfg.drawProbCap := by rw [hdraw]; norm_num
  rcases hcalib with hc | hc
  · have hw : weightsOf cfg = shimWeights := by simp [weightsOf, hc]
    exact coherent_iff hw hexact hpos hhalf hone hrest snap
  · have hw : weightsOf cfg = shippedCalibration.weights := by simp [weightsOf, hc]
    exact coherent_iff hw hexact hpos hhalf hone hrest snap

theorem capScore_pos (ht : 0 < cfg.temperature) (hhalf : 1 / 2 < cfg.maxTrueProb) (hcap : cfg.maxTrueProb < 1) :
    0 < capScore cfg := by
  have htemp : (0 : ℝ) < cfg.temperature := by exact_mod_cast ht
  have hhalf' : ((1 / 2 : ℚ) : ℝ) < cfg.maxTrueProb := by exact_mod_cast hhalf
  have hcap' : (cfg.maxTrueProb : ℝ) < 1 := by exact_mod_cast hcap
  push_cast at hhalf'
  have hlogit : 0 < logit cfg.maxTrueProb := Real.log_pos (by rw [lt_div_iff₀ (by linarith)]; linarith)
  exact div_pos (mul_pos htemp hlogit) log_base_pos

/-- The default filter in exact arithmetic. -/
def FilterSettings.exactly : FilterSettings := { FilterSettings.default with exact := true }

/-- A match of evenly shared play, the bookmaker at 5 for either side. -/
def evenMatch (home away : Int) : MomentumFrame :=
  { matchID := "m1", marketID := "1X2", league := "", homeTeam := "", awayTeam := "", clock := "31'"
    scoreHome := home, scoreAway := away, odds := ⟨[("home", 5), ("away", 5)], by decide⟩
    windowStart := 0, windowEnd := 60, shotsTotal := 3, shotsOnTarget := 1, dangerousAttacks := 2
    possessionHome := 1 / 2, features := none }

/-- With away a goal behind there is room for both. -/
theorem a_led_market_is_coherent : Coherent FilterSettings.exactly (withFeatures Settings.default (evenMatch 1 0)) :=
  (posteriors_coherent_iff (Or.inr rfl) rfl (by decide +kernel) (by decide +kernel) (by decide +kernel) _).mpr
    (Or.inl (by decide +kernel))

/-- Under the shipped weights each leg of a goalless match gets more than an even chance. -/
theorem a_goalless_market_is_overfull :
    ¬ Coherent FilterSettings.exactly (withFeatures Settings.default (evenMatch 0 0)) := by
  have hw : weightsOf FilterSettings.exactly = shippedCalibration.weights := rfl
  rw [coherent_iff hw rfl (by decide +kernel) (by decide +kernel) (by decide +kernel) (by decide +kernel)]
  have hcap : 0 < capScore FilterSettings.exactly :=
    capScore_pos (by decide +kernel) (by decide +kernel) (by decide +kernel)
  have hbeside : ∀ q : ℚ, 0 ≤ q → ¬ (q : ℝ) ≤ -capScore FilterSettings.exactly := by
    intro q hq hle
    have : (0 : ℝ) ≤ q := by exact_mod_cast hq
    linarith
  intro hroom
  rcases hroom with h | h | h
  · revert h
    decide +kernel
  · exact hbeside _ (by decide +kernel) h
  · exact hbeside _ (by decide +kernel) h

/-! ## The side behind -/

/-- The last input is 1 for the side behind, and 0 for both when the score is level. -/
def MarksTrailing (cfg : Settings) (snap : MomentumFrame) : Prop :=
  ((scoreInputs (withFeatures cfg snap) "home").getLast? = some 1 ↔ snap.scoreHome < snap.scoreAway) ∧
    ((scoreInputs (withFeatures cfg snap) "away").getLast? = some 1 ↔ snap.scoreAway < snap.scoreHome) ∧
    (snap.scoreHome = snap.scoreAway →
      (scoreInputs (withFeatures cfg snap) "home").getLast? = some 0 ∧
        (scoreInputs (withFeatures cfg snap) "away").getLast? = some 0)

theorem home_marker (cfg : Settings) (snap : MomentumFrame) :
    (scoreInputs (withFeatures cfg snap) "home").getLast? = some (if snap.scoreHome < snap.scoreAway then 1 else 0) := by
  simp [scoreInputs, withFeatures, featureVector]

/-- The away side is marked when there were goals and home is not behind. -/
theorem away_marker (cfg : Settings) (snap : MomentumFrame) :
    (scoreInputs (withFeatures cfg snap) "away").getLast? =
      some (if 0 < snap.scoreHome + snap.scoreAway ∧ snap.scoreAway ≤ snap.scoreHome then 1 else 0) := by
  have hgoals : (0 : ℚ) < ((snap.scoreHome + snap.scoreAway : Int) : ℚ) ↔ 0 < snap.scoreHome + snap.scoreAway :=
    Int.cast_pos
  by_cases hbehind : snap.scoreHome < snap.scoreAway
  · have hno : ¬ snap.scoreAway ≤ snap.scoreHome := by omega
    simp [scoreInputs, withFeatures, featureVector, hbehind, hno]
  · have hyes : snap.scoreAway ≤ snap.scoreHome := by omega
    simp only [scoreInputs, withFeatures, featureVector, Option.map_some, Option.getD_some, if_neg hbehind, hgoals]
    simp [hyes]

/-- The marker is right unless the score is level after goals; a score below zero, which
    no match has, may also miss the away side behind. -/
theorem marksTrailing_iff (cfg : Settings) (snap : MomentumFrame) :
    MarksTrailing cfg snap ↔
      (snap.scoreHome = snap.scoreAway → snap.scoreHome + snap.scoreAway ≤ 0) ∧
        (snap.scoreAway < snap.scoreHome → 0 < snap.scoreHome + snap.scoreAway) := by
  rw [MarksTrailing, home_marker, away_marker]
  simp only [Option.some.injEq]
  rcases lt_trichotomy snap.scoreHome snap.scoreAway with h | h | h
  · have hno : ¬ snap.scoreAway ≤ snap.scoreHome := by omega
    simp [h, hno, h.ne, h.not_gt]
  · simp [h]
  · simp [h, h.le, h.ne', h.not_gt]

/-- At 1-1 the away side counts as behind. -/
theorem a_level_match_marks_away : ¬ MarksTrailing Settings.default (evenMatch 1 1) := by
  intro h
  obtain ⟨-, -, hlevel⟩ := h
  obtain ⟨-, haway⟩ := hlevel rfl
  rw [away_marker] at haway
  revert haway
  decide +kernel

end CasuyaLive.Analytics
