/-
  CasuyaLive.Ingest.Helabet.Types — the EveryMatrix board and what the poller reads off one
  entry of it (data-ingestion-go, internal/helabet/types.go and the projection half of
  poller.go).

  An entry is taken as decoded. `StatItem.s1` is the number that `strconv.ParseFloat` reads
  in the trimmed text, before it is rounded to a double, and `none` when it refuses the
  text; the words for infinities and NaN are left out. Fields no function reads are too.
-/

import CasuyaLive.Lib.Calendar
import CasuyaLive.Lib.Float64
import CasuyaLive.Ingest.Stream

namespace CasuyaLive.Ingest.Helabet

open CasuyaLive.Lib CasuyaLive.Lib.Text CasuyaLive.Ingest.Stream

structure MatchTimer where
  timeSec : Int
  timeRun : Bool
  deriving DecidableEq

structure StatItem where
  id : Int
  s1 : Option ℚ
  deriving DecidableEq

structure Scores where
  scoreOpp1 : Int
  scoreOpp2 : Int
  statusLineStr : String
  currentPeriod : Int
  timer : Option MatchTimer
  /-- `tabloStats`, its home block. -/
  tabloStats : Option (List StatItem)
  deriving DecidableEq

structure Event where
  type : Int
  cf : ℚ
  deriving DecidableEq

structure EventGroup where
  groupID : Int
  events : List (List Event)
  deriving DecidableEq

structure SportRef where
  id : Int
  name : String
  deriving DecidableEq

structure RawMatch where
  id : Int
  sport : SportRef
  liga : String
  opponent1 : String
  opponent2 : String
  scores : Option Scores
  eventGroups : List EventGroup
  startTs : Int
  deriving DecidableEq

/-! ## The clock -/

/-- The minute a status line such as "6 minutes" starts with. -/
def leadingMinute (s : String) : Option Int :=
  if s = "" then none
  else
    let (n, ok) := atoi (trimSpace (before ' ' s))
    if ok && 0 < n then some n else none

/-- The status line as the pipeline's clock: "6'", "HT", "FULLTIME". -/
def parseClock (status : String) (timer : Option MatchTimer) : String :=
  let s := trimSpace status
  let upper := toUpper s
  if upper == "HT" || hasPrefix upper "HALF TIME" || hasPrefix upper "HALFTIME" then "HT"
  else if contains upper "FT" || contains upper "FINISHED" || contains upper "ENDED" || contains upper "FULL TIME" then
    fulltime
  else
    match leadingMinute s with
    | some n => itoa n ++ "'"
    | none =>
      match timer with
      | some t => if 0 < t.timeSec then itoa (t.timeSec.tdiv 60) ++ "'" else "LIVE"
      | none => "LIVE"

/-- Does the entry signal an ended match? -/
def isFullTime (raw : RawMatch) : Bool :=
  match raw.scores with
  | none => false
  | some sc =>
    let upper := toUpper (trimSpace sc.statusLineStr)
    if contains upper "FINISHED" || contains upper "ENDED" || contains upper "FULL TIME" || upper == "FT" then true
    else
      match sc.timer with
      | none => false
      | some t => !t.timeRun && 2 ≤ sc.currentPeriod && 5400 ≤ t.timeSec

/-- A dropped match that had run 89:50 or more. -/
def clockLateForDrop (raw : RawMatch) : Bool :=
  match raw.scores.bind (·.timer) with
  | none => false
  | some t => 5390 ≤ t.timeSec

/-! ## The projection -/

/-- `append` the nested events of every `groupId` 1, stopping once three are there. -/
def threeWay : List EventGroup → List Event → List Event
  | [], acc => acc
  | g :: gs, acc =>
    if g.groupID ≠ 1 then threeWay gs acc
    else
      let acc := acc ++ g.events.flatten
      if 3 ≤ acc.length then acc else threeWay gs acc

/-- The legs as the events assign them in turn; a non-positive price refuses the market. -/
def legs : List Event → OddsSet → Option OddsSet
  | [], out => some out
  | e :: es, out =>
    if e.cf ≤ 0 then none
    else legs es
      (if e.type = 1 then { out with home := e.cf }
        else if e.type = 2 then { out with draw := e.cf }
        else if e.type = 3 then { out with away := e.cf }
        else out)

def ftOdds (groups : List EventGroup) : Option OddsSet :=
  match legs (threeWay groups []) ⟨0, 0, 0⟩ with
  | none => none
  | some out => if out.home ≤ 0 || out.draw ≤ 0 || out.away ≤ 0 then none else some out

def statsOf (raw : RawMatch) : List StatItem := (raw.scores.bind (·.tabloStats)).getD []

/-- The first item with the id decides, read or not. -/
def statByID (items : List StatItem) (id : Int) : Option ℚ := (items.find? (·.id == id)).bind (·.s1)

def possessionHomeOf (raw : RawMatch) : ℚ := (statByID (statsOf raw) 29).getD 0

def shotsOnTargetOf (raw : RawMatch) : Int :=
  match statByID (statsOf raw) 59, statByID (statsOf raw) 60 with
  | none, none => 0
  | on, off => (Float64.nearest (on.getD 0) + Float64.nearest (off.getD 0)).toInt

def shotsOf (raw : RawMatch) : Int :=
  (Float64.nearest ((statByID (statsOf raw) 59).getD 0) + Float64.nearest ((statByID (statsOf raw) 60).getD 0)).toInt

def dangerousAttacksOf (raw : RawMatch) : Int :=
  match statByID (statsOf raw) 58 with
  | some v => (Float64.nearest v).toInt
  | none => 0

def statusOf (raw : RawMatch) : String := (raw.scores.map (·.statusLineStr)).getD ""

def timerOf (raw : RawMatch) : Option MatchTimer := raw.scores.bind (·.timer)

/-- The score an entry shows: 0-0 while it carries none. -/
def scoreOf (raw : RawMatch) : Score :=
  match raw.scores with
  | none => ⟨0, 0⟩
  | some sc => ⟨sc.scoreOpp1, sc.scoreOpp2⟩

def matchIDKey (id : Int) : String := "hb-" ++ itoa id

def nonEmpty (s fallback : String) : String := if trimSpace s = "" then fallback else s

/-- The entry as a pipeline frame, `none` without a valid full-time market (or for another
    sport). -/
def toMatch (now : Int) (raw : RawMatch) : Option Match :=
  if raw.sport.id ≠ 1 then none
  else
    match ftOdds raw.eventGroups with
    | none => none
    | some odds =>
      some
        { matchID := matchIDKey raw.id
          sport := nonEmpty raw.sport.name "football"
          league := raw.liga
          homeTeam := raw.opponent1
          awayTeam := raw.opponent2
          kickoff := Calendar.timeUnix raw.startTs * second
          clock := parseClock (statusOf raw) (timerOf raw)
          score := scoreOf raw
          markets := Lib.Table.empty.set marketFT1X2 ⟨marketFT1X2, odds, now / 1000000⟩
          shots := shotsOf raw
          shotsOnTarget := shotsOnTargetOf raw
          dangerousAttacks := dangerousAttacksOf raw
          possessionHome := possessionHomeOf raw
          receivedAt := now }

/-- An entry the poller looks at: an id and both team names. -/
def listed (raw : RawMatch) : Bool := raw.id != 0 && raw.opponent1 != "" && raw.opponent2 != ""

/-- What a projected entry carries over. -/
theorem toMatch_spec {now : Int} {raw : RawMatch} {m : Match} (h : toMatch now raw = some m) :
    m.matchID = matchIDKey raw.id ∧ m.score = scoreOf raw ∧ m.clock = parseClock (statusOf raw) (timerOf raw) := by
  unfold toMatch at h
  split at h
  · cases h
  · split at h
    · cases h
    · simp only [Option.some.injEq] at h
      subst h
      simp only [and_self]

end CasuyaLive.Ingest.Helabet
