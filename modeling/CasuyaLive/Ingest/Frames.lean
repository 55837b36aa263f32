/-
  CasuyaLive.Ingest.Frames — the text of a published frame (data-ingestion-go,
  internal/stream/types.go: the JSON tags of `Match`, `Market`, `OddsSet`, `Score`;
  internal/cache/redis.go: `PublishMatch`).

  encoding/json writes the fields in the order they are declared, a map in the order of its
  keys and an instant as RFC 3339 with nanoseconds. Which literal it prints of a double is a
  parameter. The ingestor's clock is in UTC.
-/

import CasuyaLive.Ingest.Cache
import CasuyaLive.Lib.Calendar
import CasuyaLive.Lib.JsonText
import Mathlib.Data.List.Sort

namespace CasuyaLive.Ingest.Stream

open CasuyaLive.Lib

abbrev GoValue := Json Json.Lit String

def textValue (s : String) : GoValue := .str s

def intValue (n : Int) : GoValue := .num (.ofInt n)

/-- `time.Time.MarshalJSON`. -/
def timeValue (t : Int) : GoValue := .str (String.ofList (Calendar.rfc3339 t))

/-- Keys come in their order. -/
def keyOrder {ν : Type} (x y : String × ν) : Prop := x.1 ≤ y.1

instance {ν : Type} : DecidableRel (keyOrder (ν := ν)) := fun x y => inferInstanceAs (Decidable (x.1 ≤ y.1))

def sorted {ν : Type} (t : Table String ν) : Table String ν where
  entries := t.entries.insertionSort keyOrder
  nodup := (List.Perm.map _ (List.perm_insertionSort keyOrder t.entries)).nodup_iff.mpr t.nodup

/-- The match with its markets as they are written. -/
def Match.written (m : Match) : Match := { m with markets := sorted m.markets }

section

variable (lit : ℚ → Json.Lit)

def OddsSet.value (o : OddsSet) : GoValue := .obj [("home", .num (lit o.home)), ("draw", .num (lit o.draw)), ("away", .num (lit o.away))]

def Market.value (m : Market) : GoValue :=
  .obj [("market_id", textValue m.marketID), ("odds", m.odds.value lit), ("updated_at", intValue m.updatedAt)]

def Score.value (s : Score) : GoValue := .obj [("home", intValue s.home), ("away", intValue s.away)]

def Match.fields (m : Match) : List (String × GoValue) :=
  [("match_id", textValue m.matchID), ("sport", textValue m.sport), ("league", textValue m.league),
    ("home_team", textValue m.homeTeam), ("away_team", textValue m.awayTeam), ("kickoff", timeValue m.kickoff),
    ("clock", textValue m.clock), ("score", m.score.value),
    ("markets", .obj ((sorted m.markets).entries.map fun x => (x.1, x.2.value lit))), ("shots", intValue m.shots),
    ("shots_on_target", intValue m.shotsOnTarget), ("dangerous_attacks", intValue m.dangerousAttacks),
    ("possession_home", .num (lit m.possessionHome)), ("received_at", timeValue m.receivedAt)]

/-- `json.Marshal` of a match whose years have four digits. -/
def Match.text (m : Match) : String := String.ofList (Json.go.text (.obj (m.fields lit)))

/-- What a reader gets. -/
def Match.parsed (m : Match) : Json.Parsed := Json.go.value (.obj (m.fields lit))

theorem parse_match (m : Match) : Json.parse (m.text lit).toList = some (m.parsed lit) := by
  rw [Match.text, String.toList_ofList, Json.Quoting.parse_text, Match.parsed]

/-- A field of the match, as a reader gets it. -/
theorem parsed_get? (m : Match) (key : String) : (m.parsed lit).get? (Json.ofString key) =
    ((m.fields lit).reverse.find? fun f => f.1 = key).map fun f => Json.go.value f.2 := Json.get?_go _ key

end

end CasuyaLive.Ingest.Stream
