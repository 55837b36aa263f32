/-
  CasuyaLive.Analytics.Payload — what the study reads out of a frame's JSON
  (analytics-engine-py, src/main.py: `run`; src/feature_study.py: `observe_many`,
  `collect_settled`, `_scores`).

  A payload with a field of another type than the field's is not read. A number is the
  double nearest to its literal; a key that is repeated keeps its last value.
-/

import CasuyaLive.Analytics.Frame
import CasuyaLive.Lib.JsonText

namespace CasuyaLive.Analytics

open CasuyaLive.Lib

section

variable (d : Doubles)

/-- A field that is missing or of its type. -/
def fieldOf {α : Type} (read : Json.Parsed → Option α) (v : Json.Parsed) (key : String) : Option (Option α) :=
  match v.get? (Json.ofString key) with
  | none => some none
  | some w => (read w).map some

/-- A field that may be null too. -/
def fieldOrNull {α : Type} (read : Json.Parsed → Option α) (v : Json.Parsed) (key : String) : Option (Option α) :=
  match v.get? (Json.ofString key) with
  | some .null => some none
  | _ => fieldOf read v key

def readText : Json.Parsed → Option String
  | .str us => some (Json.toText us)
  | _ => none

def readInt : Json.Parsed → Option Int
  | .num l => l.int?
  | _ => none

def readFloat : Json.Parsed → Option ℚ
  | .num l => (d.nearest l).map d.val
  | _ => none

/-- The nested scoreline; what is no object is none. -/
def readScore : Json.Parsed → Option (Option NestedScore)
  | .obj fields => do
    let home ← fieldOf readInt (.obj fields) "home"
    let away ← fieldOf readInt (.obj fields) "away"
    return some ⟨home, away⟩
  | _ => some none

def readQuote (t : Quotes) (f : Json.Utf16 × Json.Parsed) : Option Quotes :=
  match f.2 with
  | .null => some (t.set (Json.toText f.1) none)
  | w => (readFloat d w).map fun q => t.set (Json.toText f.1) (some q)

def readQuotes : Json.Parsed → Option Quotes
  | .obj fields => fields.foldlM (readQuote d) Table.empty
  | _ => none

/-- A market that is no object has no odds. -/
def readMarket : Json.Parsed → Option Quotes
  | .obj fields => (fieldOf (readQuotes d) (.obj fields) "odds").map fun q => q.getD Table.empty
  | _ => some Table.empty

def readMarkets : Json.Parsed → Option (Table String Quotes)
  | .obj fields => fields.foldlM (fun t f => (readMarket d f.2).map fun q => t.set (Json.toText f.1) q) Table.empty
  | _ => none

/-- A frame put on the queue: an object, well typed. -/
def frameOf (v : Json.Parsed) : Option Frame := do
  let matchID ← fieldOrNull readText v "match_id"
  let clock ← fieldOrNull readText v "clock"
  let score ← fieldOrNull readScore v "score"
  let scoreHome ← fieldOf readInt v "score_home"
  let scoreAway ← fieldOf readInt v "score_away"
  let league ← fieldOf readText v "league"
  let homeTeam ← fieldOf readText v "home_team"
  let awayTeam ← fieldOf readText v "away_team"
  let shots ← fieldOf readInt v "shots"
  let shotsOnTarget ← fieldOf readInt v "shots_on_target"
  let dangerousAttacks ← fieldOf readInt v "dangerous_attacks"
  let possessionHome ← fieldOf (readFloat d) v "possession_home"
  let markets ← fieldOrNull (readMarkets d) v "markets"
  return ⟨matchID, clock, score.getD none, scoreHome, scoreAway, league, homeTeam, awayTeam, shots, shotsOnTarget, dangerousAttacks,
    possessionHome, markets.getD Table.empty⟩

/-- `json.loads` of a message, when it is an object. -/
def frameOfText (raw : String) : Option Frame :=
  match Json.parse raw.toList with
  | some (.obj fields) => frameOf d (.obj fields)
  | _ => none

end

theorem fieldOf_some {α : Type} {read : Json.Parsed → Option α} {v w : Json.Parsed} {key : String} {x : α}
    (hget : v.get? (Json.ofString key) = some w) (hread : read w = some x) : fieldOf read v key = some (some x) := by
  unfold fieldOf
  simp only [hget, hread, Option.map_some]

theorem fieldOf_none {α : Type} {read : Json.Parsed → Option α} {v : Json.Parsed} {key : String}
    (hget : v.get? (Json.ofString key) = none) : fieldOf read v key = some none := by
  unfold fieldOf
  simp only [hget]

theorem fieldOrNull_some {α : Type} {read : Json.Parsed → Option α} {v w : Json.Parsed} {key : String} {x : α}
    (hget : v.get? (Json.ofString key) = some w) (hread : read w = some x) (hnull : w ≠ .null) :
    fieldOrNull read v key = some (some x) := by
  unfold fieldOrNull
  split
  · rename_i h
    rw [hget] at h
    exact absurd (Option.some.inj h) hnull
  · exact fieldOf_some hget hread

end CasuyaLive.Analytics
