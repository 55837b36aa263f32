/-
  CasuyaLive.Analytics.Diagnostics — the audit of settled markets (analytics-engine-py,
  src/diagnostics.py: `audit`, `_build_record`).

  The final scores are integers already. A quote of zero on the audited side, or -1 as the
  longest quote, divides by zero.
-/

import CasuyaLive.Analytics.FeatureStudy

namespace CasuyaLive.Analytics

open CasuyaLive.Lib

structure DriftMap where
  varianceScore : ℚ
  overconfidence : ℚ
  closureDelta : ℚ
  deriving DecidableEq

/-- One audit entry of a settled bet that lost. -/
structure DiagnosticRecord where
  matchID : Option String
  marketID : String
  finalHome : Int
  finalAway : Int
  predictedSide : String
  driftScore : ℚ
  driftMap : DriftMap
  recommendations : List String
  emittedAt : ℚ
  deriving DecidableEq

def diffBaseline : ℚ := 30 / 100

/-- Whether the side won. -/
def resolved (side : String) (home away : Int) : Bool :=
  if side == "home" then away < home
  else if side == "away" then home < away
  else home == away

/-- The first of the longest quotes. -/
def longest (odds : Table String ℚ) : Option (String × ℚ) :=
  odds.entries.foldl (fun best x =>
    match best with
    | none => some x
    | some b => if b.2 < x.2 then some x else some b) none

def variance (odds : Table String ℚ) (predicted : String) : Except Raised ℚ :=
  let price := (odds.get? predicted).getD 2
  if price = 0 then .error .zeroDivision else .ok (round4 ((1 / price) ^ 2))

def overconfidence (top : ℚ) : Except Raised ℚ := if top + 1 = 0 then .error .zeroDivision else .ok (round4 (top / (top + 1)))

def recommendations (d : DriftMap) : List String :=
  (if diffBaseline < d.varianceScore then
    ["feature_study.divergence: widen the danger-surge weighting in the momentum aggregation window"] else []) ++
  (if diffBaseline < d.overconfidence then
    ["filter_engine.true_probability: apply shrinkage to the logistic score before comparing against implied probability"]
    else [])

/-- The record of one settled market, none when its side won or it has no quote. -/
def audit (now : ℚ) (settled : SettledEntry) : Except Raised (Option DiagnosticRecord) :=
  match longest settled.closingOdds with
  | none => .ok none
  | some top => do
    let side := if settled.predictedSide == "" then top.1 else settled.predictedSide
    if resolved side settled.finalHome settled.finalAway then return none
    else
      let v ← variance settled.closingOdds side
      let o ← overconfidence top.2
      let drift : DriftMap := ⟨v, o, settled.closureDelta⟩
      return some
        { matchID := settled.matchID
          marketID := settled.marketID
          finalHome := settled.finalHome
          finalAway := settled.finalAway
          predictedSide := side
          driftScore := round4 ((v + o + settled.closureDelta) / 3)
          driftMap := drift
          recommendations := recommendations drift
          emittedAt := now }

end CasuyaLive.Analytics
