/-
  CasuyaLive.Analytics.Frame — match frames as the analytics engine reads them out of their
  JSON (analytics-engine-py, src/feature_study.py: `_scores`, `_is_boundary`,
  `_parse_clock_minute`).

  Frames are well typed: a field that is there has its type. A field that is missing, or null
  where the code treats null alike, is `none`; a clock that is not a text is its `str`.
  Numbers are exact rationals. Of a market only its odds are read; a market that is no object
  has none.
-/

import Mathlib.Data.Rat.Floor
import CasuyaLive.Lib.Table
import CasuyaLive.Lib.Text

namespace CasuyaLive.Analytics

open CasuyaLive.Lib

/-- The arithmetic exceptions of Python that a frame can provoke. -/
inductive Raised where
  | zeroDivision
  | overflow
  deriving DecidableEq

/-- Python's `round` to four digits: to the nearest, a tie to the even one. -/
def round4 {K : Type} [Field K] [LinearOrder K] [FloorRing K] (x : K) : K :=
  let n := ⌊x * 10000⌋
  let part := x * 10000 - n
  let nearest := if part < 1 / 2 then n else if 1 / 2 < part then n + 1 else if n % 2 = 0 then n else n + 1
  nearest / 10000

/-- The cumulative totals a provider reports. -/
structure Counters where
  shots : Int
  shotsOnTarget : Int
  dangerousAttacks : Int
  deriving DecidableEq

structure NestedScore where
  home : Option Int
  away : Option Int
  deriving DecidableEq

/-- The quotes of one market; null quotes are `none`. -/
abbrev Quotes := Table String (Option ℚ)

structure Frame where
  matchID : Option String
  clock : Option String
  score : Option NestedScore
  scoreHome : Option Int
  scoreAway : Option Int
  league : Option String
  homeTeam : Option String
  awayTeam : Option String
  shots : Option Int
  shotsOnTarget : Option Int
  dangerousAttacks : Option Int
  possessionHome : Option ℚ
  markets : Table String Quotes
  deriving DecidableEq

namespace Frame

/-- The scoreline, from the nested form of the Go pollers or the flat form. -/
def scores (f : Frame) : Int × Int :=
  match f.score with
  | some nested => (nested.home.getD 0, nested.away.getD 0)
  | none => (f.scoreHome.getD 0, f.scoreAway.getD 0)

def counters (f : Frame) : Counters :=
  ⟨f.shots.getD 0, f.shotsOnTarget.getD 0, f.dangerousAttacks.getD 0⟩

/-- The clock as the study compares it: stripped, in capitals. -/
def mark (f : Frame) : String := Text.toUpper (Text.strip (f.clock.getD ""))

/-- A period boundary, not ingestible momentum. -/
def isBoundary (f : Frame) : Bool := ["HALFTIME", "FULLTIME", "HT", "FT"].contains f.mark

/-- A frame that declares a final score. -/
def isFinal (f : Frame) : Bool := f.isBoundary && ["FULLTIME", "FT"].contains f.mark

/-- The match id and the clock of a frame that `observe_many` does not skip. -/
def observed (f : Frame) : Option (String × String) :=
  match f.matchID, f.clock with
  | some m, some clock =>
    if m == "" || clock == "" || f.isBoundary || f.markets.entries.isEmpty then none else some (m, clock)
  | none, some _ => none
  | some _, none => none
  | none, none => none

/-- The match whose positions the frame releases: the clock is compared unstripped. -/
def closes (f : Frame) : Option String :=
  if Text.toUpper (f.clock.getD "") = "FULLTIME" then f.matchID.filter (· != "") else none

theorem observed_matchID {f : Frame} {m clock : String} (h : f.observed = some (m, clock)) : f.matchID = some m := by
  unfold observed at h
  split at h
  · split at h
    · cases h
    · simp only [Option.some.injEq, Prod.mk.injEq] at h
      rw [‹f.matchID = _›, h.1]
  all_goals cases h

theorem observed_id {f : Frame} {m m' clock : String} (hm : f.matchID = some m) (h : f.observed = some (m', clock)) : m' = m := by
  have hid := observed_matchID h
  rw [hm] at hid
  exact (Option.some.inj hid).symm

theorem observed_boundary {f : Frame} (h : f.isBoundary = true) : f.observed = none := by
  unfold observed
  split <;> simp [h]

theorem observed_markets {f : Frame} {x : String × String} (h : f.observed = some x) : f.markets.entries ≠ [] := by
  intro e
  unfold observed at h
  split at h
  · simp [e] at h
  all_goals cases h

theorem observed_final {f : Frame} (h : f.isFinal = true) : f.observed = none :=
  observed_boundary (Bool.and_eq_true_iff.mp h).1

/-- A frame that releases a match is final for the study too. -/
theorem closes_final {f : Frame} {m : String} (h : f.closes = some m) : f.isFinal = true := by
  have hupper : Text.toUpper (f.clock.getD "") = "FULLTIME" := by
    unfold closes at h
    split at h
    · assumption
    · cases h
  have hmark : f.mark = "FULLTIME" := by
    rw [mark, Text.strip_of_upper (by decide) hupper, hupper]
  simp [isFinal, isBoundary, hmark]

end Frame

/-- The minute of a clock such as 31, 31', 45+2' or 31:20. -/
def parseClockMinute (clock : String) : Option ℚ :=
  let primed := (Text.strip clock).map fun c => if c = '’' ∨ c = 'ʼ' then '\'' else c
  if primed = "" then none
  else
    let base := Text.before '+' primed
    let minute := if base.toList.contains ':' then Text.before ':' base else base
    Text.float (Text.strip (Text.trimRight '\'' (Text.strip minute)))

example : parseClockMinute " 45+2’" = some 45 := by decide +kernel

end CasuyaLive.Analytics
