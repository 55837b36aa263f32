/-
  CasuyaLive.System.Edges — from the edge the analytics engine finds to the profit the
  execution engine fills (analytics-engine-py, src/filter_engine.py: `evaluate`;
  execution-engine-go, internal/broker: `PlaceOrder`, `pnlFor`).

  `evaluate_finds_the_edge`: in exact arithmetic with a positive odds floor the verdict
  executes exactly when some eligible leg has an edge above the slack, on an eligible leg of
  maximal edge at its price; under the default slack and odds of 1 and more, the bet still
  has a positive expected profit at the price the paper broker fills.

  The profit is the movement before `pnlFor` rounds it to the cent. Rounded, a bet that moves
  less than half a cent either way earns nothing (`small_bets_earn_nothing`); from 34 cents
  on no stake is too small.
-/

import CasuyaLive.Analytics.BestSide
import CasuyaLive.Execution.Paper.Store

namespace CasuyaLive.System

open CasuyaLive.Lib CasuyaLive.Analytics CasuyaLive.Execution

/-- What `pnlFor` rounds. -/
def movement (result : Result) (stake odds : ℚ) : ℚ :=
  match result with
  | .won => stake * (odds - 1)
  | .lost => -stake
  | .void => 0
  | .unresolved => 0

/-- The mean of a bet that wins with probability `p` and loses otherwise. -/
def expected (pnl : Result → ℚ → ℚ → ℚ) (p : ℝ) (fill : Fill) : ℝ :=
  p * pnl .won fill.stake fill.odds + (1 - p) * pnl .lost fill.stake fill.odds

/-- The order a verdict places. -/
def payloadOf (v : Verdict) (amount : ℚ) : Paper.Payload := ⟨v.matchID, v.marketID, v.side, v.odds, amount⟩

theorem pnlFor_eq (result : Result) (stake odds : ℚ) : pnlFor result stake odds = cents (movement result stake odds) := rfl

/-- Rounding to the cent moves a sum by half a cent at most. -/
theorem cents_ge (q : ℚ) : q - 1 / 200 ≤ cents q := by
  have hround : q * 100 - 1 / 2 ≤ mathRound (q * 100) := by
    unfold mathRound
    split
    · have := Int.sub_one_lt_floor (q * 100 + 1 / 2)
      linarith
    · have := Int.floor_le (-(q * 100) + 1 / 2)
      push_cast
      linarith
  rw [cents, le_div_iff₀ (by norm_num)]
  linarith

theorem placeOrder_pos (now : Int) {p : Paper.Payload} (h : 0 < p.amount) :
    ∃ fill, Paper.placeOrder now p = some fill ∧ fill.stake = p.amount ∧ fill.odds = p.odds * (1 - Paper.slippage) := by
  refine ⟨_, by rw [Paper.placeOrder, if_neg (not_le.mpr h)], rfl, ?_⟩
  show p.odds - p.odds * Paper.slippage = _
  ring

/-- An edge of 2 percent outlives half a percent of slippage. -/
theorem edge_survives {p : ℝ} {odds : ℚ} (hodds : 1 ≤ odds) (hedge : (20 / 1000 : ℝ) < p - 1 / (odds : ℝ)) :
    (149 / 10000 : ℝ) < p * (odds * (1 - Paper.slippage) : ℚ) - 1 := by
  have hone : (1 : ℝ) ≤ odds := by exact_mod_cast hodds
  have hfair : (odds : ℝ) * (1 / odds) = 1 := by
    rw [mul_one_div, div_self (by linarith)]
  have hslip : ((odds * (1 - Paper.slippage) : ℚ) : ℝ) = odds * (995 / 1000) := by
    have : (Paper.slippage : ℚ) = 5 / 1000 := rfl
    rw [this]
    push_cast
    ring
  rw [hslip]
  have hgain : (20 / 1000 : ℝ) * odds < p * odds - 1 := by
    have := mul_lt_mul_of_pos_left hedge (by linarith : (0 : ℝ) < odds)
    linarith
  linarith

theorem expected_movement {p : ℝ} {fill : Fill} :
    expected movement p fill = fill.stake * (p * fill.odds - 1) := by
  simp only [expected, movement]
  push_cast
  ring

/-- What such a bet is expected to earn, for each unit staked. -/
theorem expected_gain {p : ℝ} {odds stake : ℚ} (hodds : 1 ≤ odds) (hedge : (20 / 1000 : ℝ) < p - 1 / (odds : ℝ))
    (hstake : 0 < stake) {fill : Fill} (hs : fill.stake = stake) (ho : fill.odds = odds * (1 - Paper.slippage)) :
    (149 / 10000 : ℝ) * stake < expected movement p fill := by
  have hstake' : (0 : ℝ) < stake := by exact_mod_cast hstake
  rw [expected_movement, hs, ho, mul_comm]
  exact mul_lt_mul_of_pos_left (edge_survives hodds hedge) hstake'

theorem expected_pnlFor {p : ℝ} (h0 : 0 ≤ p) (h1 : p ≤ 1) (fill : Fill) :
    expected movement p fill - 1 / 200 ≤ expected pnlFor p fill := by
  have hwon : ((movement .won fill.stake fill.odds - 1 / 200 : ℚ) : ℝ) ≤ pnlFor .won fill.stake fill.odds := by
    rw [pnlFor_eq]
    exact_mod_cast cents_ge _
  have hlost : ((movement .lost fill.stake fill.odds - 1 / 200 : ℚ) : ℝ) ≤ pnlFor .lost fill.stake fill.odds := by
    rw [pnlFor_eq]
    exact_mod_cast cents_ge _
  push_cast at hwon hlost
  have hw := mul_le_mul_of_nonneg_left hwon h0
  have hl := mul_le_mul_of_nonneg_left hlost (by linarith : 0 ≤ 1 - p)
  simp only [expected]
  linarith

/-- Less than half a cent is nothing. -/
theorem cents_of_lt {q : ℚ} (h : |q| < 1 / 200) : cents q = 0 := by
  obtain ⟨hlo, hhi⟩ := abs_lt.mp h
  have hround : mathRound (q * 100) = 0 := by
    unfold mathRound
    split
    · rw [Int.floor_eq_zero_iff]
      exact ⟨by linarith, by linarith⟩
    · rw [neg_eq_zero, Int.floor_eq_zero_iff]
      exact ⟨by linarith, by linarith⟩
  rw [cents, hround]
  simp

theorem small_bets_earn_nothing (p : ℝ) {fill : Fill} (hlost : |fill.stake| < 1 / 200)
    (hwon : |movement .won fill.stake fill.odds| < 1 / 200) : expected pnlFor p fill = 0 := by
  have hlost' : |movement .lost fill.stake fill.odds| < 1 / 200 := by rwa [movement, abs_neg]
  simp [expected, pnlFor_eq, cents_of_lt hwon, cents_of_lt hlost']

variable {cfg : FilterSettings} {snap : MomentumFrame}

theorem legProbability_range {side : String} {p : ℝ} (hcap : 0 ≤ cfg.maxTrueProb)
    (h : legProbability cfg snap side = .ok p) : 0 ≤ p ∧ p ≤ 1 := by
  have hcap' : (0 : ℝ) ≤ cfg.maxTrueProb := by exact_mod_cast hcap
  have hpos := power_pos (rawScore cfg (scoreInputs snap side) / cfg.temperature)
  obtain ⟨-, -, hp⟩ := legProbability_eq_ok.mp h
  rw [← hp]
  refine ⟨le_min (by positivity) hcap', (min_le_left _ _).trans ?_⟩
  rw [div_le_one (by linarith)]
  linarith

theorem trueProbability_le_one {side : String} {p : ℝ} (hcap : 0 ≤ cfg.maxTrueProb)
    (h : trueProbability cfg snap side = .ok p) : p ≤ 1 := by
  by_cases hd : side = "draw"
  · subst hd
    cases ha : legProbability cfg snap "away" with
    | error x => simp [trueProbability, ha, bind, Except.bind] at h
    | ok away =>
      cases hh : legProbability cfg snap "home" with
      | error x => simp [trueProbability, ha, hh, bind, Except.bind] at h
      | ok home =>
        rw [trueProbability_draw hh ha] at h
        cases h
        have h1 := (legProbability_range hcap ha).1
        have h2 := (legProbability_range hcap hh).1
        exact (min_le_left _ _).trans (max_le (by norm_num) (by linarith))
  · rw [trueProbability_leg hd] at h
    exact (legProbability_range hcap h).2

/-- The verdict executes exactly when some eligible leg has an edge above the slack, on the
    strongest one at its price; the profit expected of the filled bet is positive before it
    is rounded to the cent, and from a stake of 34 cents on after that as well. -/
theorem evaluate_finds_the_edge {cfg : FilterSettings} (hexact : cfg.exact = true) (hmin : 0 < cfg.minOdds)
    (snap : MomentumFrame) :
    ((∃ v, evaluate cfg snap = .ok v ∧ v.shouldExecute = true) ↔
      ∃ side e, HasEdge cfg snap side e ∧ cfg.marginSlack < e) ∧
    ∀ v, evaluate cfg snap = .ok v → v.shouldExecute = true →
      v.odds = priceOf snap.odds v.side ∧
      (∃ e, HasEdge cfg snap v.side e ∧ ∀ side f, HasEdge cfg snap side f → f ≤ e) ∧
      (cfg.marginSlack = 20 / 1000 → 1 ≤ cfg.minOdds →
        ∃ p, trueProbability cfg snap v.side = .ok p ∧ ∀ now stake, 0 < stake →
          ∃ fill, Paper.placeOrder now (payloadOf v stake) = some fill ∧ 0 < expected movement p fill ∧
            (0 ≤ cfg.maxTrueProb → 34 / 100 ≤ stake → 0 < expected pnlFor p fill)) := by
  refine ⟨executes_iff hexact hmin snap, fun v hv hshould => ?_⟩
  obtain ⟨hodds, e, hedge, hslack, hmax⟩ := executes_best hmin hv hshould
  refine ⟨hodds, ⟨e, hedge, hmax⟩, fun hm hone => ?_⟩
  obtain ⟨⟨-, hband⟩, p, hp, rfl⟩ := hedge
  refine ⟨p, hp, fun now stake hstake => ?_⟩
  obtain ⟨fill, hfill, hfs, hfo⟩ := placeOrder_pos now (p := payloadOf v stake) hstake
  have hprice : 1 ≤ v.odds := by
    rw [hodds]
    exact hone.trans hband.1
  rw [← hodds] at hslack
  have hm' : (cfg.marginSlack : ℝ) = 20 / 1000 := by
    rw [hm]
    norm_num
  rw [hm'] at hslack
  have hgain : (149 / 10000 : ℝ) * stake < expected movement p fill := expected_gain hprice hslack hstake hfs hfo
  have hstake' : (0 : ℝ) < stake := by exact_mod_cast hstake
  refine ⟨fill, hfill, by linarith, fun hcap hcents => ?_⟩
  have hcents' : (34 / 100 : ℝ) ≤ stake := by
    have : ((34 / 100 : ℚ) : ℝ) ≤ stake := by exact_mod_cast hcents
    push_cast at this
    exact this
  have hpos : 0 ≤ p := by
    have hinv : (0 : ℝ) ≤ 1 / (v.odds : ℝ) := by
      have : (0 : ℝ) ≤ v.odds := by exact_mod_cast (zero_le_one.trans hprice)
      positivity
    linarith
  have hrounded := expected_pnlFor hpos (trueProbability_le_one hcap hp) fill
  linarith

theorem even_home : ∃ e, HasEdge FilterSettings.exactly (withFeatures Settings.default (evenMatch 0 0)) "home" e ∧
    (FilterSettings.exactly.marginSlack : ℝ) < e := by
  obtain ⟨p, hp, hhalf⟩ := @legProbability_half FilterSettings.exactly (withFeatures Settings.default (evenMatch 0 0)) "home"
    (by decide +kernel) (by decide +kernel) (by decide +kernel)
  refine ⟨_, ⟨⟨by decide +kernel, by decide +kernel⟩, p, (trueProbability_leg (by decide) _).trans hp, rfl⟩, ?_⟩
  have hprice : priceOf (withFeatures Settings.default (evenMatch 0 0)).odds "home" = 5 := rfl
  have hslack : FilterSettings.exactly.marginSlack = 20 / 1000 := rfl
  rw [hprice, hslack]
  push_cast
  linarith

/-- The engine bets on an even match at 5, at a positive expected profit for a stake of 25. -/
theorem an_even_match_pays : ∃ v, evaluate FilterSettings.exactly (withFeatures Settings.default (evenMatch 0 0)) = .ok v ∧
    v.shouldExecute = true ∧ ∃ p fill, Paper.placeOrder 0 (payloadOf v 25) = some fill ∧ 0 < expected pnlFor p fill := by
  obtain ⟨hiff, hbest⟩ := @evaluate_finds_the_edge FilterSettings.exactly rfl (by decide +kernel)
    (withFeatures Settings.default (evenMatch 0 0))
  obtain ⟨e, he⟩ := even_home
  obtain ⟨v, hv, hshould⟩ := hiff.mpr ⟨"home", e, he⟩
  obtain ⟨-, -, hprofit⟩ := hbest v hv hshould
  obtain ⟨p, -, hfills⟩ := hprofit rfl (by decide +kernel)
  obtain ⟨fill, hfill, -, hpays⟩ := hfills 0 25 (by norm_num)
  exact ⟨v, hv, hshould, p, fill, hfill, hpays (by decide +kernel) (by norm_num)⟩

end CasuyaLive.System
