/-
  CasuyaLive.Ingest.Stream — the match contract every provider hands to the sink
  (data-ingestion-go, internal/stream/types.go).

  Times are nanoseconds since the epoch. Odds and statistics are exact rationals.
-/

import Mathlib.Data.Rat.Defs
import CasuyaLive.Lib.Table
import CasuyaLive.Lib.Text

namespace CasuyaLive.Ingest.Stream

open CasuyaLive.Lib

def second : Int := 1000000000
def minute : Int := 60 * second

def marketFT1X2 : String := "FULLTIME_1X2"

structure OddsSet where
  home : ℚ
  draw : ℚ
  away : ℚ
  deriving DecidableEq

structure Market where
  marketID : String
  odds : OddsSet
  updatedAt : Int
  deriving DecidableEq

structure Score where
  home : Int
  away : Int
  deriving DecidableEq

/-- The validated contract derived from a vendor frame. -/
structure Match where
  matchID : String
  sport : String
  league : String
  homeTeam : String
  awayTeam : String
  kickoff : Int
  clock : String
  score : Score
  markets : Table String Market
  shots : Int
  shotsOnTarget : Int
  dangerousAttacks : Int
  possessionHome : ℚ
  receivedAt : Int

inductive BoundaryError where
  | emptyMatchID
  | badMarket
  | badOdds
  deriving DecidableEq

def Market.validate (m : Market) : Option BoundaryError :=
  if [m.odds.home, m.odds.draw, m.odds.away].any (· ≤ 0) then some .badOdds else none

/-- A malformed frame is rejected here, so it never reaches storage. -/
def Match.validate (m : Match) : Option BoundaryError :=
  if Text.trimSpace m.matchID = "" then some .emptyMatchID
  else if m.markets.entries.isEmpty then some .badMarket
  else m.markets.entries.findSome? (·.2.validate)

/-- The clock that marks a settlement frame. -/
def fulltime : String := "FULLTIME"

/-- `m` as a settlement frame received at `now`. -/
def Match.settlement (m : Match) (now : Int) : Match := { m with clock := fulltime, receivedAt := now }

@[simp] theorem settlement_matchID (m : Match) (now : Int) : (m.settlement now).matchID = m.matchID := rfl
@[simp] theorem settlement_clock (m : Match) (now : Int) : (m.settlement now).clock = fulltime := rfl
@[simp] theorem settlement_score (m : Match) (now : Int) : (m.settlement now).score = m.score := rfl

end CasuyaLive.Ingest.Stream
