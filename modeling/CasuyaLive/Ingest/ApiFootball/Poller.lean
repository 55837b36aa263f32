/-
  CasuyaLive.Ingest.ApiFootball.Poller — the poll cycle over the API-Football feeds
  (data-ingestion-go, internal/apifootball/poller.go: `cycle` and the readings of a
  `liveEvent`).

  A cycle reads three feeds and the clock once. A feed that failed, or could not be
  decoded, is an empty table. Go ranges over the maps in no fixed order; here they go in
  table order, and every property below is about one match at a time.
-/

import CasuyaLive.Lib.Run
import CasuyaLive.Ingest.Sink

namespace CasuyaLive.Ingest.ApiFootball

open CasuyaLive.Lib CasuyaLive.Lib.Text CasuyaLive.Ingest.Stream

/-- One row of the `get_events` response. -/
structure LiveEvent where
  home : String
  away : String
  league : String
  status : String
  matchTime : String
  homeScore : Int
  awayScore : Int
  shots : Int
  shotsOnTarget : Int
  dangerousAttacks : Int
  possessionHome : ℚ
  closed : OddsSet
  hasClosedOdds : Bool
  kickoff : Int
  deriving DecidableEq

def inPlay (ev : LiveEvent) : Bool := ["1H", "2H", "ET", "AET"].contains (toUpper (trimSpace ev.status))

/-- The match clock, "" when unknown. -/
def minuteOf (ev : LiveEvent) : String := trimSpace ev.matchTime

def finalScore (ev : LiveEvent) : Option Score :=
  if ["FT", "AET", "PEN"].contains (toUpper (trimSpace ev.status)) then some ⟨ev.homeScore, ev.awayScore⟩ else none

/-- A live match between cycles. The zero market is one without a quote. -/
structure MatchState where
  home : String
  away : String
  league : String
  kickoff : Int
  lastMarket : Market
  lastScore : Score

structure Poller where
  playing : Table String MatchState
  log : List (Obs LiveEvent)

def new : Poller := ⟨Table.empty, []⟩

structure Cycle where
  now : Int
  odds : Table String OddsSet
  live : Table String LiveEvent
  day : Table String LiveEvent

def fresh (ev : LiveEvent) : MatchState := ⟨ev.home, ev.away, ev.league, ev.kickoff, ⟨"", ⟨0, 0, 0⟩, 0⟩, ⟨0, 0⟩⟩

def timeUnixOrZero (now unix : Int) : Int := if unix ≤ 0 then now - 60 * minute else unix * second

def matchIDKey (id : String) : String := "api-" ++ id

def publish (sink : Sink LiveEvent) (p : Poller) (m : Match) : Poller := { p with log := p.log ++ [.sent m (sink p.log m)] }

def liveFrame (now : Int) (id : String) (ev : LiveEvent) (mkt : Market) : Match :=
  { matchID := matchIDKey id
    sport := "soccer"
    league := ev.league
    homeTeam := ev.home
    awayTeam := ev.away
    kickoff := timeUnixOrZero now ev.kickoff
    clock := minuteOf ev
    score := ⟨ev.homeScore, ev.awayScore⟩
    markets := Table.empty.set marketFT1X2 mkt
    shots := ev.shots
    shotsOnTarget := ev.shotsOnTarget
    dangerousAttacks := ev.dangerousAttacks
    possessionHome := ev.possessionHome
    receivedAt := now }

/-- One live match: track it, and emit its frame when it has a clock and a valid quote. -/
def onLive (sink : Sink LiveEvent) (c : Cycle) (p : Poller) (x : String × LiveEvent) : Poller :=
  let (id, ev) := x
  if !inPlay ev then p
  else
    let st := (p.playing.get? id).getD (fresh ev)
    let p := { p with playing := p.playing.set id st }
    if minuteOf ev = "" then p
    else
      match c.odds.get? id with
      | none => p
      | some o =>
        let mkt : Market := ⟨marketFT1X2, o, 0⟩
        if mkt.validate ≠ none then p
        else
          let p := { p with playing := p.playing.set id { st with lastMarket := mkt, lastScore := ⟨ev.homeScore, ev.awayScore⟩ } }
          let m := liveFrame c.now id ev mkt
          if m.validate = none then publish sink p m else p

/-- The closing quote of the day's row, or the last live one. -/
def closingMarket (st : MatchState) (ev : LiveEvent) : Market :=
  if ev.hasClosedOdds then ⟨marketFT1X2, ev.closed, 0⟩ else st.lastMarket

def settlementFrame (now : Int) (id : String) (st : MatchState) (ev : LiveEvent) (final : Score) : Match :=
  { matchID := matchIDKey id
    sport := "soccer"
    league := st.league
    homeTeam := st.home
    awayTeam := st.away
    kickoff := timeUnixOrZero now st.kickoff
    clock := fulltime
    score := final
    markets := Table.empty.set marketFT1X2 (closingMarket st ev)
    shots := 0
    shotsOnTarget := 0
    dangerousAttacks := 0
    possessionHome := 0
    receivedAt := now }

/-- The settlement frame of a tracked match that is no longer live and whose final score is
    known; `none` while it is still to be waited for. -/
def settles (c : Cycle) (x : String × MatchState) : Option Match :=
  match c.live.get? x.1 with
  | some _ => none
  | none =>
    match c.day.get? x.1 with
    | none => none
    | some ev => (finalScore ev).map (settlementFrame c.now x.1 x.2 ev)

def onSettle (sink : Sink LiveEvent) (c : Cycle) (p : Poller) (x : String × MatchState) : Poller :=
  match settles c x with
  | none => p
  | some frame =>
    let p := if frame.validate = none then publish sink p frame else p
    { playing := p.playing.erase x.1
      log := p.log ++ [.stopped (matchIDKey x.1) true] }

/-- Matches that went live between the two passes. -/
def register (p : Poller) (x : String × LiveEvent) : Poller :=
  if inPlay x.2 && (p.playing.get? x.1).isNone then { p with playing := p.playing.set x.1 (fresh x.2) } else p

def onLives (sink : Sink LiveEvent) (c : Cycle) (p : Poller) : Poller := c.live.entries.foldl (onLive sink c) p

def onSettles (sink : Sink LiveEvent) (c : Cycle) (p : Poller) : Poller := p.playing.entries.foldl (onSettle sink c) p

def cycle (sink : Sink LiveEvent) (p : Poller) (c : Cycle) : Poller :=
  c.live.entries.foldl register (onSettles sink c (onLives sink c p))

def run (sink : Sink LiveEvent) (cs : List Cycle) : Poller := cs.foldl (cycle sink) new

/-! ## What the passes add to the log -/

theorem settles_spec {c : Cycle} {x : String × MatchState} {m : Match} (h : settles c x = some m) :
    m.clock = fulltime ∧ m.matchID = matchIDKey x.1 := by
  unfold settles at h
  split at h
  · cases h
  · split at h
    · cases h
    · rw [Option.map_eq_some_iff] at h
      obtain ⟨final, -, rfl⟩ := h
      exact ⟨rfl, rfl⟩

theorem register_log (p : Poller) (x : String × LiveEvent) : (register p x).log = p.log := by
  unfold register
  split <;> rfl

theorem onLive_log (sink : Sink LiveEvent) (c : Cycle) (p : Poller) (x : String × LiveEvent) :
    (onLive sink c p x).log = p.log ∨ ∃ m ok, (onLive sink c p x).log = p.log ++ [.sent m ok] := by
  unfold onLive
  simp only
  split
  · exact Or.inl rfl
  · split
    · exact Or.inl rfl
    · cases c.odds.get? x.1 with
      | none => exact Or.inl rfl
      | some o =>
        simp only
        split
        · exact Or.inl rfl
        · split
          · exact Or.inr ⟨_, _, rfl⟩
          · exact Or.inl rfl

end CasuyaLive.Ingest.ApiFootball
