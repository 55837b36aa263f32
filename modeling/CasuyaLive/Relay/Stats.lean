/-
  CasuyaLive.Relay.Stats — the operator's statistics (web-interface-js, backend/server.js:
  `handleStats`).

  The handler reads four hashes and the heartbeat, texts all of them, and answers numbers. A
  number that is NaN is printed as null, so none stands for both. What fails is the reading
  of the features: a text that is no JSON, or JSON without a map, ends in the catch.
  `Date.parse` is a parameter, and every read of Redis succeeds.
-/

import Mathlib.Data.Rat.Floor
import CasuyaLive.Relay.Server

namespace CasuyaLive.Relay

open CasuyaLive.Lib

/-- What the handler reads. -/
structure Stored where
  model : Table String String
  heartbeat : Option String
  pnl : Table String String
  outcomes : Table String String
  staleness : Table String String

/-- The model card. -/
structure Card where
  status : Option String
  generatedAt : Option String
  heartbeat : Option String
  statusAgeSeconds : Option Int
  rows : Option ℚ
  trainRows : Option ℚ
  valRows : Option ℚ
  features : List Json.Parsed
  bias : Option ℚ
  l2 : Option ℚ
  trainAccuracy : Option ℚ
  trainBrier : Option ℚ
  valAccuracy : Option ℚ
  valBrier : Option ℚ
  valAuc : Option ℚ
  baselineLogloss : Option ℚ
  modelLogloss : Option ℚ
  weights : List (Option ℚ)
  weightNames : List (Json.Parsed × Option ℚ)

structure PnlStats where
  net : Option ℚ
  won : Option ℚ
  lost : Option ℚ
  voids : Option ℚ
  updatedCycle : Option ℚ

structure OutcomeStats where
  net : Option ℚ
  won : Option ℚ
  lost : Option ℚ

structure ChannelStats where
  lastSeenMs : Option ℚ
  ageSeconds : Option Int

structure Stats where
  generatedAt : Int
  model : Card
  pnl : PnlStats
  outcomes : OutcomeStats
  channels : Table String ChannelStats

section

variable (nums : Numbers Json.Lit) (parseDate : String → Option Int)

/-- `Number(text)`. -/
def number (t : String) : Option ℚ := if t = "" then some 0 else nums.ofText (Json.ofString t)

/-- A field that is there and not empty. -/
def filled (hash : Table String String) (key : String) : Option String := (hash.get? key).filter (· != "")

/-- `hash.key ? Number(hash.key) : null`. -/
def numberIfFilled (hash : Table String String) (key : String) : Option ℚ := (filled hash key).bind (number nums)

/-- `hash.key !== undefined ? Number(hash.key) : null`. -/
def numberIfDefined (hash : Table String String) (key : String) : Option ℚ := (hash.get? key).bind (number nums)

/-- `hash.key !== undefined ? Number(hash.key) : 0`, and so `Number(hash.key || 0)`. -/
def numberOrZero (hash : Table String String) (key : String) : Option ℚ :=
  match hash.get? key with
  | none => some 0
  | some t => number nums t

/-- Whole seconds, none of them negative. -/
def secondsSince (now : Int) (t : ℚ) : Int := max 0 ⌊((now : ℚ) - t) / 1000⌋

def ageOf (now : Int) (iso : Option String) : Option Int :=
  ((iso.filter (· != "")).bind parseDate).map fun t => secondsSince now t

def channelStats (now : Int) (staleness : Table String String) (ch : String) : ChannelStats :=
  match ((staleness.get? ch).bind (number nums)).filter (· != 0) with
  | none => ⟨none, none⟩
  | some last => ⟨some last, some (secondsSince now last)⟩

/-- The text without a bracket in front and one at its end. -/
def unbracket (cs : List Char) : List Char :=
  let cs := if cs.head? = some '[' then cs.tail else cs
  if cs.getLast? = some ']' then cs.dropLast else cs

def weightsOf (model : Table String String) : List (Option ℚ) :=
  match filled model "weights" with
  | none => []
  | some t => (((unbracket t.toList).splitOn ',').filter (!·.isEmpty)).map fun cs => number nums (String.ofList cs)

/-- The features, and none when the handler throws on them. -/
def featuresOf (model : Table String String) : Option (List Json.Parsed) :=
  match filled model "features" with
  | none => some []
  | some t =>
    match Json.parse t.toList with
    | some (.arr names) => some names
    | _ => none

def cardOf (now : Int) (r : Stored) (features : List Json.Parsed) : Card :=
  let weights := weightsOf nums r.model
  { status := filled r.model "status"
    generatedAt := filled r.model "generated_at"
    heartbeat := r.heartbeat.filter (· != "")
    statusAgeSeconds := ageOf parseDate now (r.model.get? "generated_at")
    rows := numberIfFilled nums r.model "rows"
    trainRows := numberIfFilled nums r.model "train_rows"
    valRows := numberIfFilled nums r.model "val_rows"
    features := features
    bias := numberIfDefined nums r.model "bias"
    l2 := numberIfDefined nums r.model "l2"
    trainAccuracy := numberIfDefined nums r.model "train_accuracy"
    trainBrier := numberIfDefined nums r.model "train_brier"
    valAccuracy := numberIfDefined nums r.model "val_accuracy"
    valBrier := numberIfDefined nums r.model "val_brier"
    valAuc := numberIfDefined nums r.model "val_auc"
    baselineLogloss := numberIfDefined nums r.model "baseline_logloss"
    modelLogloss := numberIfDefined nums r.model "model_logloss"
    weights := weights
    weightNames := features.zipIdx.map fun x => (x.1, (weights[x.2]?).join) }

/-- The answer; none is the 500 of the catch. -/
def handleStats (env : Env) (now : Int) (r : Stored) : Option Stats :=
  (featuresOf r.model).map fun features =>
    { generatedAt := now
      model := cardOf nums parseDate now r features
      pnl :=
        { net := numberOrZero nums r.pnl "net"
          won := numberOrZero nums r.pnl "won"
          lost := numberOrZero nums r.pnl "lost"
          voids := numberOrZero nums r.pnl "voids"
          updatedCycle := numberIfFilled nums r.pnl "updated_cycle" }
      outcomes :=
        { net := numberOrZero nums r.outcomes "net"
          won := numberOrZero nums r.outcomes "won"
          lost := numberOrZero nums r.outcomes "lost" }
      channels := env.channels.foldl (fun t ch => t.set ch (channelStats nums now r.staleness ch)) Table.empty }

end

end CasuyaLive.Relay
