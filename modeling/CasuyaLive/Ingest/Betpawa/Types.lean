/-
  CasuyaLive.Ingest.Betpawa.Types — the betPawa live feed and what the poller reads off one
  event of it (data-ingestion-go, internal/betpawa/types.go and `toMatch`).

  An event is taken as decoded. `startTime` is the instant `time.Parse` makes of the text,
  `none` when it refuses it. Fields no function reads are left out.
-/

import CasuyaLive.Ingest.Stream

namespace CasuyaLive.Ingest.Betpawa

open CasuyaLive.Lib.Text CasuyaLive.Ingest.Stream

/-- `minute`, and the slug of `currentPeriod`. -/
structure RawDisplay where
  minute : String
  slug : String
  deriving DecidableEq

structure PeriodResult where
  slug : String
  result : String
  type : String
  deriving DecidableEq

structure ParticipantPeriodResult where
  type : String
  periodResults : List PeriodResult
  deriving DecidableEq

structure RawPrice where
  name : String
  odds : ℚ
  deriving DecidableEq

structure RawMarket where
  marketType : String
  row : List (List RawPrice)
  deriving DecidableEq

structure RawParticipant where
  name : String
  position : Int
  deriving DecidableEq

structure RawEvent where
  id : String
  startTime : Option Int
  category : String
  region : String
  competition : String
  display : RawDisplay
  participantPeriodResults : List ParticipantPeriodResult
  participants : List RawParticipant
  markets : List RawMarket
  deriving DecidableEq

/-- Later prices of one leg replace earlier ones. -/
def setPrice (odds : OddsSet) (p : RawPrice) : OddsSet :=
  if toUpper p.name = "1" then { odds with home := p.odds }
  else if toUpper p.name = "X" then { odds with draw := p.odds }
  else if toUpper p.name = "2" then { odds with away := p.odds }
  else odds

/-- The first full-time market whose first row prices all three legs. -/
def ftOdds : List RawMarket → Option OddsSet
  | [] => none
  | m :: ms =>
    match m.row with
    | [] => ftOdds ms
    | prices :: _ =>
      if m.marketType ≠ "3743" then ftOdds ms
      else
        let odds := prices.foldl setPrice ⟨0, 0, 0⟩
        if 0 < odds.home ∧ 0 < odds.draw ∧ 0 < odds.away then some odds else ftOdds ms

def scorePeriod (side : String) (s : Score) (pr : PeriodResult) : Score :=
  if pr.slug ≠ "FULL_TIME_EXCLUDING_OVERTIME" ∨ pr.type ≠ "SCORE" then s
  else
    let n := (atoi pr.result).1
    if equalFold side "HOME" then { s with home := n }
    else if equalFold side "AWAY" then { s with away := n }
    else s

def scoreParticipants (parts : List ParticipantPeriodResult) : Score :=
  parts.foldl (fun s pp => pp.periodResults.foldl (scorePeriod pp.type) s) ⟨0, 0⟩

/-- The markers of a finished period, in an upper-case slug. -/
def finishedSlug (slug : String) : Bool := contains slug "FULL_TIME" || contains slug "FINISHED" || contains slug "ENDED"

def parseClock (d : RawDisplay) : String :=
  let slug := toUpper d.slug
  if contains slug "HALF_TIME" || slug == "HALF" then "HT"
  else if finishedSlug slug then fulltime
  else
    let (n, ok) := atoi (trimSpace d.minute)
    if ok && 0 ≤ n then itoa n ++ "'" else "LIVE"

def isFullTimePeriod (d : RawDisplay) : Bool :=
  let slug := toUpper d.slug
  if contains slug "HALF_TIME" then false
  else finishedSlug slug

/-- 85 minutes or more: a match that leaves the feed now is taken as finished. -/
def clockIsLate (clock : String) : Bool :=
  let clock := trimSpace clock
  if clock == fulltime || clock == "HT" then clock == fulltime
  else
    let (n, ok) := atoi (trimSuffix '\'' clock)
    ok && 85 ≤ n

/-- Go's zero time, the first instant of year 1. -/
def zeroTime : Int := -62135596800 * second

def kickoffTime (startTime : Option Int) : Int := startTime.getD zeroTime

/-- The last participant at the position. -/
def nameAt (position : Int) (ps : List RawParticipant) : String :=
  ps.foldl (fun name pt => if pt.position = position then pt.name else name) ""

def toMatch (now : Int) (ev : RawEvent) : Option Match :=
  if !equalFold ev.category "Football" then none
  else
    match ftOdds ev.markets with
    | none => none
    | some odds =>
      some
        { matchID := "bp-" ++ ev.id
          sport := ev.category
          league := ev.region ++ ". " ++ ev.competition
          homeTeam := nameAt 1 ev.participants
          awayTeam := nameAt 2 ev.participants
          kickoff := kickoffTime ev.startTime
          clock := parseClock ev.display
          score := scoreParticipants ev.participantPeriodResults
          markets := Lib.Table.empty.set marketFT1X2 ⟨marketFT1X2, odds, now / 1000000⟩
          shots := 0
          shotsOnTarget := 0
          dangerousAttacks := 0
          possessionHome := 0
          receivedAt := now }

theorem itoa_minute_ne (n : Int) : itoa n ++ "'" ≠ fulltime :=
  ne_of_last (by rw [show ("'" : String) = String.ofList ['\''] from rfl, last_append]; decide)

/-- A frame's clock says FULLTIME exactly when the period is a finished one. -/
theorem parseClock_fulltime (d : RawDisplay) : parseClock d = fulltime ↔ isFullTimePeriod d = true := by
  have hht : ("HT" : String) ≠ fulltime := by decide
  have hmin : (if (atoi (trimSpace d.minute)).2 && decide (0 ≤ (atoi (trimSpace d.minute)).1) then
      itoa (atoi (trimSpace d.minute)).1 ++ "'" else "LIVE") ≠ fulltime := by
    split
    · exact itoa_minute_ne _
    · decide
  unfold parseClock isFullTimePeriod
  by_cases hh : contains (toUpper d.slug) "HALF_TIME" = true
  · simp [hh, hht]
  · by_cases he : toUpper d.slug = "HALF"
    · have hf : finishedSlug "HALF" = false := by decide
      have hc : contains "HALF" "HALF_TIME" = false := by decide
      simp [he, hf, hc, hht]
    · cases hf : finishedSlug (toUpper d.slug) with
      | true => simp [hh, he, hf]
      | false => simpa [hh, he, hf] using hmin

theorem toMatch_spec {now : Int} {ev : RawEvent} {m : Match} (h : toMatch now ev = some m) :
    m.matchID = "bp-" ++ ev.id ∧ m.clock = parseClock ev.display ∧ m.receivedAt = now := by
  unfold toMatch at h
  split at h
  · cases h
  · split at h
    · cases h
    · simp only [Option.some.injEq] at h
      subst h
      simp only [and_self]

end CasuyaLive.Ingest.Betpawa
