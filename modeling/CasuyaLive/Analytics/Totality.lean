/-
  CasuyaLive.Analytics.Totality — where the posterior raises (analytics-engine-py,
  src/filter_engine.py: `true_probability`, `best_side`, `evaluate`; src/feature_study.py:
  `observe_many`, `expected_danger`, `feature_vector`; scripts/calibrate.py:
  `recompute_distributions`).

  The power of the logistic is one-sided: a score far enough below zero takes it past the
  largest double. The danger ratio divides the attacks of a match by what its window expects,
  with a floor of a millionth, and its shipped weight is negative.
  - `evaluation_total_iff`: along any run, on baselines fitted from any history, every
    snapshot gets a verdict iff the attacks bear every leg priced in the band (`Bearable`).
  - `zero_rate_bearable_iff`: where the fitted rate rounds to 0, that bounds a million times
    the attacks.
  - `one_attack_raises`: a league of three frames without an attack, then one attack.
-/

import CasuyaLive.Analytics.BaselineRate
import CasuyaLive.Analytics.BestSide

namespace CasuyaLive.Analytics

open CasuyaLive.Lib

/-! ## The power of a score -/

/-- The distance below zero at which the power of a score leaves the doubles, before the
    temperature. -/
noncomputable def overflowScore (cfg : FilterSettings) : ℝ :=
  cfg.temperature * (Real.log floatLimit / Real.log 2.718281828459045)

variable {cfg : FilterSettings} {snap : MomentumFrame}

theorem overflow_iff (ht : 0 < cfg.temperature) (score : ℚ) :
    floatLimit ≤ power (score / cfg.temperature) ↔ (score : ℝ) ≤ -overflowScore cfg := by
  have htemp : (0 : ℝ) < cfg.temperature := by exact_mod_cast ht
  have hlimit : 0 < floatLimit := zero_lt_one.trans one_lt_floatLimit
  have hlog := log_base_pos
  have hsplit : floatLimit ≤ power (score / cfg.temperature) ↔
      Real.log floatLimit ≤ -((score / cfg.temperature : ℚ) : ℝ) * Real.log 2.718281828459045 := by
    rw [power, ← Real.log_rpow (by norm_num), Real.log_le_log_iff hlimit (Real.rpow_pos_of_pos (by norm_num) _)]
  rw [hsplit, ← div_le_iff₀ hlog, Rat.cast_div, ← neg_div, le_div_iff₀ htemp, overflowScore]
  constructor
  · intro h
    linarith
  · intro h
    linarith

/-- The default temperature takes no score above -1536 out of range. -/
theorem overflowScore_le : overflowScore FilterSettings.default ≤ 1536 := by
  have hlog := log_base_pos
  have hlimit : 0 < floatLimit := zero_lt_one.trans one_lt_floatLimit
  have hpow : floatLimit ≤ (2.718281828459045 : ℝ) ^ (1024 : ℕ) := by
    have htwo : floatLimit ≤ (2 : ℝ) ^ (1024 : ℕ) := by
      have hnat : 2 ^ 1024 - 2 ^ 970 ≤ 2 ^ 1024 := Nat.sub_le _ _
      have hcast : ((2 ^ 1024 - 2 ^ 970 : ℕ) : ℝ) ≤ ((2 ^ 1024 : ℕ) : ℝ) := Nat.cast_le.mpr hnat
      rw [Nat.cast_pow, Nat.cast_ofNat] at hcast
      exact hcast
    exact htwo.trans (pow_le_pow_left₀ (by norm_num) (by norm_num) 1024)
  have hle : Real.log floatLimit ≤ 1024 * Real.log 2.718281828459045 := by
    have h := Real.log_le_log hlimit hpow
    rw [Real.log_pow] at h
    exact_mod_cast h
  have hdiv : Real.log floatLimit / Real.log 2.718281828459045 ≤ 1024 := (div_le_iff₀ hlog).mpr hle
  have htemp : ((FilterSettings.default.temperature : ℚ) : ℝ) = 3 / 2 := by
    show (((3 / 2 : ℚ)) : ℝ) = 3 / 2
    norm_num
  rw [overflowScore, htemp]
  linarith

/-! ## Verdicts -/

theorem legProbability_ok_iff (ht : cfg.temperature ≠ 0) (side : String) :
    (∃ p, legProbability cfg snap side = .ok p) ↔
      ¬ (cfg.exact = false ∧ floatLimit ≤ power (rawScore cfg (scoreInputs snap side) / cfg.temperature)) := by
  refine ⟨fun h => ?_, fun h => ⟨_, legProbability_eq_ok.mpr ⟨ht, h, rfl⟩⟩⟩
  obtain ⟨p, hp⟩ := h
  exact (legProbability_eq_ok.mp hp).2.1

/-- With a positive odds floor, a snapshot gets a verdict iff every leg the scan prices has a
    posterior. -/
theorem evaluate_ok_iff (hmin : 0 < cfg.minOdds) : (∃ v, evaluate cfg snap = .ok v) ↔
    ∀ side ∈ sides cfg, InBand cfg snap side → ∃ p, trueProbability cfg snap side = .ok p := by
  cases hq : snap.odds.entries.isEmpty with
  | true =>
    -- without a quote no leg is in the band
    have hnone : ∀ side, ¬ InBand cfg snap side := by
      intro side hband
      have h0 : priceOf snap.odds side ≠ 0 := (hmin.trans_le hband.1).ne'
      obtain ⟨price, hget⟩ := quoted_of_price h0
      have hquoted := Table.isEmpty_of_get hget
      rw [hq] at hquoted
      cases hquoted
    refine iff_of_true ⟨_, by rw [evaluate, hq, if_pos rfl]; rfl⟩ ?_
    intro side _ hband
    exact absurd hband (hnone side)
  | false =>
    have hverdict : (∃ v, evaluate cfg snap = .ok v) ↔ ∃ found, (sides cfg).mapM (priced cfg snap) = .ok found := by
      rw [evaluate_eq hq, bestSide_eq]
      cases (sides cfg).mapM (priced cfg snap) with
      | error x => simp [Except.map]
      | ok found => simp [Except.map]
    rw [hverdict]
    constructor
    · intro h side hside hband
      obtain ⟨found, hfound⟩ := h
      obtain ⟨o, -, ho⟩ := (mapM_ok_mem hfound).1 side hside
      cases o with
      | none => exact absurd hband (priced_none ho)
      | some leg => exact ⟨_, (priced_some ho).2.2.1⟩
    · intro h
      apply mapM_ok_of_all
      intro side hside
      by_cases hband : InBand cfg snap side
      · obtain ⟨p, hp⟩ := h side hside hband
        exact ⟨_, priced_of hband hp (hmin.trans_le hband.1).ne'⟩
      · exact ⟨none, priced_out hband⟩

/-! ## What a leg bears -/

section

variable (studySettings : Settings)

/-- What the shipped weights make of a leg without its danger. -/
def leaning (snap : MomentumFrame) (side : String) : ℚ :=
  let baseline := baselineFor studySettings snap
  let gaps := 12328 / 1000000 * divergence studySettings snap + 203 / 1000000 * (snap.possessionHome - baseline.possessionHome) -
    2067657 / 1000000 * (shotAccuracy snap - baseline.shotAccuracy)
  let behind :=
    if side = "away" then decide (0 < snap.scoreHome + snap.scoreAway ∧ snap.scoreAway ≤ snap.scoreHome)
    else decide (snap.scoreHome < snap.scoreAway)
  374806 / 1000000 + (if side = "away" then -gaps else gaps) - if behind then 4298312 / 1000000 else 0

/-- The attacks, against those expected, leave the leg's score above the overflow. -/
def Bearable (snap : MomentumFrame) (side : String) : Prop :=
  ((8049 / 1000000 * snap.dangerousAttacks : ℚ) : ℝ) <
    (overflowScore FilterSettings.default + leaning studySettings snap side) *
      (max (expectedDanger studySettings snap) (1 / 1000000) : ℚ)

/-- What the attacks make of their share of those expected. -/
def intensity (snap : MomentumFrame) : ℚ := snap.dangerousAttacks / max (expectedDanger studySettings snap) (1 / 1000000)

theorem scoreInputs_home (snap : MomentumFrame) : scoreInputs (withFeatures studySettings snap) "home" =
    [divergence studySettings snap, intensity studySettings snap,
      snap.possessionHome - (baselineFor studySettings snap).possessionHome,
      shotAccuracy snap - (baselineFor studySettings snap).shotAccuracy,
      if snap.scoreHome < snap.scoreAway then 1 else 0] := by
  simp [scoreInputs, withFeatures, featureVector, intensity]

theorem scoreInputs_away (snap : MomentumFrame) : scoreInputs (withFeatures studySettings snap) "away" =
    [-divergence studySettings snap, intensity studySettings snap,
      -(snap.possessionHome - (baselineFor studySettings snap).possessionHome),
      -(shotAccuracy snap - (baselineFor studySettings snap).shotAccuracy),
      if 0 < snap.scoreHome + snap.scoreAway ∧ snap.scoreAway ≤ snap.scoreHome then 1 else 0] := by
  have hlast := away_marker studySettings snap
  simp only [scoreInputs, withFeatures, featureVector, List.getLast?_cons_cons, List.getLast?_singleton, Option.some.injEq,
    intensity] at hlast ⊢
  rw [hlast]
  rfl

/-- The score under the shipped weights. -/
theorem rawScore_default (snap : MomentumFrame) {side : String} (hside : side = "home" ∨ side = "away") :
    rawScore FilterSettings.default (scoreInputs (withFeatures studySettings snap) side) =
      leaning studySettings snap side - 8049 / 1000000 * intensity studySettings snap := by
  rcases hside with rfl | rfl
  · rw [scoreInputs_home]
    simp only [rawScore, FilterSettings.default, shippedCalibration, leaning, List.zipWith_cons_cons, List.zipWith_nil_left,
      List.sum_cons, List.sum_nil]
    by_cases hbehind : snap.scoreHome < snap.scoreAway
    · simp [hbehind]
      ring
    · simp [hbehind]
      ring
  · rw [scoreInputs_away]
    simp only [rawScore, FilterSettings.default, shippedCalibration, leaning, List.zipWith_cons_cons, List.zipWith_nil_left,
      List.sum_cons, List.sum_nil]
    by_cases hbehind : 0 < snap.scoreHome + snap.scoreAway ∧ snap.scoreAway ≤ snap.scoreHome
    · simp [hbehind]
      ring
    · simp [hbehind]
      ring

theorem expected_floor_pos (snap : MomentumFrame) : 0 < max (expectedDanger studySettings snap) (1 / 1000000) :=
  lt_of_lt_of_le (by norm_num) (le_max_right _ _)

theorem bearable_iff (snap : MomentumFrame) (side : String) : Bearable studySettings snap side ↔
    -overflowScore FilterSettings.default <
      ((leaning studySettings snap side - 8049 / 1000000 * intensity studySettings snap : ℚ) : ℝ) := by
  have hpos : (0 : ℝ) < (max (expectedDanger studySettings snap) (1 / 1000000) : ℚ) := by
    exact_mod_cast expected_floor_pos studySettings snap
  have hshare : ((8049 / 1000000 * intensity studySettings snap : ℚ) : ℝ) =
      ((8049 / 1000000 * snap.dangerousAttacks : ℚ) : ℝ) / (max (expectedDanger studySettings snap) (1 / 1000000) : ℚ) := by
    rw [← Rat.cast_div, intensity, mul_div_assoc]
  rw [Bearable, ← div_lt_iff₀ hpos, ← hshare, Rat.cast_sub]
  constructor
  · intro h
    linarith
  · intro h
    linarith

/-- A leg the scan prices has a posterior iff its attacks are bearable. -/
theorem posterior_ok_iff (snap : MomentumFrame) {side : String} (hside : side = "home" ∨ side = "away") :
    (∃ p, trueProbability FilterSettings.default (withFeatures studySettings snap) side = .ok p) ↔
      Bearable studySettings snap side := by
  have hdraw : side ≠ "draw" := by
    rcases hside with rfl | rfl <;> decide
  have ht : 0 < FilterSettings.default.temperature := by decide +kernel
  have hdoubles : FilterSettings.default.exact = false := rfl
  rw [trueProbability_leg hdraw, legProbability_ok_iff ht.ne', overflow_iff ht, rawScore_default studySettings snap hside,
    bearable_iff]
  simp only [hdoubles, true_and, not_le]

/-- A snapshot gets a verdict iff its attacks bear every leg priced in the band. -/
theorem verdict_iff (snap : MomentumFrame) :
    (∃ v, evaluate FilterSettings.default (withFeatures studySettings snap) = .ok v) ↔
      ∀ side ∈ ["home", "away"], InBand FilterSettings.default snap side → Bearable studySettings snap side := by
  have hsides : sides FilterSettings.default = ["home", "away"] := rfl
  rw [evaluate_ok_iff (by decide +kernel), hsides]
  refine forall₂_congr fun side hside => ?_
  have hnamed : side = "home" ∨ side = "away" := by simpa using hside
  rw [posterior_ok_iff _ snap hnamed]
  rfl

/-- Where the window expects no more than the floor, the leg bears a million times its
    attacks or none. -/
theorem zero_rate_bearable_iff {snap : MomentumFrame} (h : expectedDanger studySettings snap ≤ 1 / 1000000) (side : String) :
    Bearable studySettings snap side ↔
      ((8049 * snap.dangerousAttacks : ℚ) : ℝ) < overflowScore FilterSettings.default + leaning studySettings snap side := by
  rw [Bearable, max_eq_right h]
  push_cast
  constructor
  · intro hlt
    linarith
  · intro hlt
    linarith

end

/-! ## Runs -/

/-- The snapshots of the next frame of a run. -/
def snapshotsAfter (studySettings : Settings) (earlier : List Received) (x : Received) : List MomentumFrame :=
  (observeMany studySettings (studied studySettings earlier) x.frame x.asof).2

/-- The study on baselines fitted from these frames. -/
def fittedSettings (windowSeconds : ℕ) (history : List Frame) : Settings := ⟨windowSeconds, recomputeDistributions history⟩

/-- On baselines fitted from any history and along any run, every snapshot gets a verdict iff
    the attacks bear every leg priced in the band. -/
theorem evaluation_total_iff (windowSeconds : ℕ) (history : List Frame) (rs : List Received) :
    Each (fun earlier x => ∀ snap ∈ snapshotsAfter (fittedSettings windowSeconds history) earlier x,
      ∃ v, evaluate FilterSettings.default (withFeatures (fittedSettings windowSeconds history) snap) = .ok v) rs ↔
    Each (fun earlier x => ∀ snap ∈ snapshotsAfter (fittedSettings windowSeconds history) earlier x, ∀ side ∈ ["home", "away"],
      InBand FilterSettings.default snap side → Bearable (fittedSettings windowSeconds history) snap side) rs := by
  simp only [verdict_iff]

/-! ## A league without attacks -/

/-- A frame of m1 with the attacks since kickoff, home quoted at 6. -/
def quotedFrame (clock : String) (attacks : Int) : Frame :=
  { attackedFrame clock attacks with markets := Table.empty.set "2H_1X2" (Table.empty.set "home" (some 6)) }

/-- Three frames of a league without an attack. -/
def idleHistory : List Frame := [10, 20, 30].map fun (k : ℕ) => quotedFrame (Text.itoa k ++ "'") 0

def firstAttack : Received := ⟨quotedFrame "5'" 1, 300⟩

/-- Three frames of a league without an attack fit 0 a minute; the next match's first attack
    raises. -/
theorem one_attack_raises : ¬ ∀ (windowSeconds : ℕ) (history : List Frame) (rs : List Received),
    Each (fun earlier x => ∀ snap ∈ snapshotsAfter (fittedSettings windowSeconds history) earlier x,
      ∃ v, evaluate FilterSettings.default (withFeatures (fittedSettings windowSeconds history) snap) = .ok v) rs := by
  intro h
  have hrun := h 750 idleHistory [firstAttack] [] firstAttack [] rfl
  have hsnap : ∀ snap ∈ snapshotsAfter (fittedSettings 750 idleHistory) [] firstAttack,
      InBand FilterSettings.default snap "home" ∧ snap.dangerousAttacks = 1 ∧
        expectedDanger (fittedSettings 750 idleHistory) snap = 0 ∧
        leaning (fittedSettings 750 idleHistory) snap "home" ≤ 1 := by
    decide +kernel
  have hobserved : (quotedFrame "5'" 1).observed = some ("m1", "5'") := by decide +kernel
  obtain ⟨snap, hin⟩ := observeMany_market (fittedSettings 750 idleHistory) (s := studied _ []) hobserved 300
  obtain ⟨hband, hattack, hexpected, hleaning⟩ := hsnap snap hin
  have hbears := (verdict_iff _ snap).mp (hrun snap hin) "home" (by decide) hband
  rw [zero_rate_bearable_iff _ (by rw [hexpected]; norm_num), hattack] at hbears
  have hlimit := overflowScore_le
  have hrest : ((leaning (fittedSettings 750 idleHistory) snap "home" : ℚ) : ℝ) ≤ 1 := by
    exact_mod_cast hleaning
  push_cast at hbears
  linarith

end CasuyaLive.Analytics
