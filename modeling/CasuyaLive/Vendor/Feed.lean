/-
  CasuyaLive.Vendor.Feed — the scripted live feed (mock-vendor, server.js: `frame`,
  `TEMPLATE`, `SCORELINES`, `SCENARIO_WEIGHTS`, `pickScenario`, `vendorServer`).

  Every connection plays the one template from its start, under a scenario of its own that
  decides the scores, and is closed after the last row. A forced scenario that is a name of
  every object (`toString`) is left out.
-/

import CasuyaLive.Vendor.Server

namespace CasuyaLive.Vendor

open CasuyaLive.Lib CasuyaLive.Execution
open Json (Wire text object)

/-! ## The script -/

structure Stats where
  shots : Int
  shotsOnTarget : Int
  dangerousAttacks : Int
  possessionHome : ℚ

/-- Home, draw, away. -/
structure Prices where
  home : ℚ
  draw : ℚ
  away : ℚ

structure Step where
  step : Int
  clock : String
  o1h : Prices
  o2h : Prices
  stats : Stats

def template : List Step := [
  ⟨0, "31", ⟨21/10, 34/10, 44/10⟩, ⟨22/10, 35/10, 46/10⟩, ⟨3, 0, 9, 36/100⟩⟩,
  ⟨1, "34", ⟨21/10, 34/10, 45/10⟩, ⟨22/10, 35/10, 47/10⟩, ⟨4, 1, 10, 35/100⟩⟩,
  ⟨2, "37", ⟨22/10, 35/10, 46/10⟩, ⟨235/100, 36/10, 49/10⟩, ⟨5, 1, 11, 34/100⟩⟩,
  ⟨3, "41", ⟨23/10, 35/10, 47/10⟩, ⟨245/100, 36/10, 51/10⟩, ⟨5, 1, 11, 34/100⟩⟩,
  ⟨4, "45", ⟨23/10, 35/10, 48/10⟩, ⟨25/10, 36/10, 52/10⟩, ⟨6, 1, 12, 33/100⟩⟩,
  ⟨5, "HT", ⟨23/10, 35/10, 48/10⟩, ⟨25/10, 36/10, 52/10⟩, ⟨6, 1, 12, 33/100⟩⟩,
  ⟨6, "52", ⟨24/10, 36/10, 48/10⟩, ⟨26/10, 37/10, 54/10⟩, ⟨8, 2, 14, 32/100⟩⟩,
  ⟨7, "58", ⟨25/10, 37/10, 49/10⟩, ⟨27/10, 38/10, 56/10⟩, ⟨10, 2, 16, 32/100⟩⟩,
  ⟨8, "64", ⟨26/10, 37/10, 49/10⟩, ⟨28/10, 38/10, 59/10⟩, ⟨11, 3, 17, 32/100⟩⟩,
  ⟨9, "70", ⟨27/10, 38/10, 50/10⟩, ⟨30/10, 39/10, 63/10⟩, ⟨13, 3, 18, 31/100⟩⟩,
  ⟨10, "76", ⟨28/10, 38/10, 51/10⟩, ⟨31/10, 40/10, 68/10⟩, ⟨14, 4, 19, 31/100⟩⟩,
  ⟨11, "82", ⟨29/10, 39/10, 52/10⟩, ⟨33/10, 41/10, 72/10⟩, ⟨15, 4, 19, 32/100⟩⟩,
  ⟨12, "88", ⟨31/10, 39/10, 53/10⟩, ⟨35/10, 41/10, 78/10⟩, ⟨16, 5, 20, 33/100⟩⟩,
  ⟨13, "90", ⟨32/10, 40/10, 54/10⟩, ⟨36/10, 42/10, 82/10⟩, ⟨17, 5, 20, 33/100⟩⟩,
  ⟨14, "FULLTIME", ⟨32/10, 40/10, 54/10⟩, ⟨36/10, 42/10, 82/10⟩, ⟨17, 5, 20, 33/100⟩⟩]

inductive Scenario where
  | away
  | draw
  | home
  deriving DecidableEq

/-- The score at each row, home and away. -/
def scorelines : Scenario → List (Int × Int)
  | .away => [(0, 0), (0, 0), (0, 1), (0, 1), (0, 1), (0, 1), (0, 1), (0, 2), (0, 2), (0, 2), (0, 2), (1, 2), (1, 2), (1, 2), (1, 2)]
  | .draw => [(0, 0), (0, 0), (0, 1), (0, 1), (0, 1), (0, 1), (0, 1), (0, 1), (1, 1), (1, 1), (1, 1), (1, 1), (1, 1), (1, 1), (1, 1)]
  | .home => [(0, 0), (0, 0), (0, 1), (0, 1), (0, 1), (0, 1), (0, 1), (1, 1), (1, 1), (2, 1), (2, 1), (2, 1), (2, 1), (2, 1), (2, 1)]

def scenarioWeights : List (Scenario × ℚ) := [(.away, 72), (.draw, 18), (.home, 10)]

def scenarioNamed : String → Option Scenario
  | "away" => some .away
  | "draw" => some .draw
  | "home" => some .home
  | _ => none

/-- The first scenario whose weight, with those before it, exceeds the roll. -/
def rolled (roll : ℚ) : ℚ → List (Scenario × ℚ) → Scenario
  | _, [] => .away
  | acc, s :: rest => if roll < acc + s.2 then s.1 else rolled roll (acc + s.2) rest

/-- `forced` is the variable MOCK_SCENARIO; `random` lies from zero to one. -/
def pickScenario (forced : Option String) (random : ℚ) : Scenario :=
  match forced.bind scenarioNamed with
  | some s => s
  | none => rolled (random * 100) 0 scenarioWeights

def marketWire (id : String) (o : Prices) (updatedAt : Int) : Wire :=
  object [("market_id", text id),
    ("odds", object [("home", .num (fmt o.home)), ("draw", .num (fmt o.draw)), ("away", .num (fmt o.away))]),
    ("updated_at", .num updatedAt)]

/-- The fields of a step come from the template, its score from the scenario. -/
def frame (m : Step) (score : Int × Int) (kickoff : Int) : Wire :=
  object [("match_id", text "epl-2026-0042"), ("sport", text "football"), ("league", text "england_premier_league"),
    ("home_team", text "Example FC"), ("away_team", text "Casual United"), ("kickoff", .num kickoff), ("clock", text m.clock),
    ("score", object [("home", .num score.1), ("away", .num score.2)]),
    ("markets", object [("1H_1X2", marketWire "1H_1X2" m.o1h (kickoff + m.step * 60)),
      ("2H_1X2", marketWire "2H_1X2" m.o2h (kickoff + m.step * 60))]),
    ("shots", .num m.stats.shots), ("shots_on_target", .num m.stats.shotsOnTarget),
    ("dangerous_attacks", .num m.stats.dangerousAttacks), ("possession_home", .num (fmt m.stats.possessionHome))]

/-! ## A connection -/

structure Link where
  scenario : Scenario
  kickoff : Int
  guard : Nat
  /-- The interval is set. -/
  timer : Bool
  /-- The socket's ready state is OPEN. -/
  isOpen : Bool

/-- A connection is made: it is 31 minutes into its match. -/
def connected (forced : Option String) (random : ℚ) (now : JsDate) : Link :=
  ⟨pickScenario forced random, now.ms / 1000 - 31 * 60, 0, true, true⟩

/-- The step a connection is at, with its score. -/
def Link.row (l : Link) : Option (Step × (Int × Int)) := do
  let m ← template[l.guard]?
  let score ← (scorelines l.scenario)[l.guard]?
  return (m, score)

/-- The interval's turn: the connection after it, and the step whose frame is sent. -/
def Link.turn (l : Link) : Link × Option (Step × (Int × Int)) :=
  if !l.timer then (l, none)
  else if !l.isOpen ∨ template.length ≤ l.guard then ({ l with timer := false, isOpen := false }, none)
  else ({ l with guard := l.guard + 1 }, l.row)

/-- Its part in the book: the frame at full time settles it. -/
def settled (boot now : JsDate) (ready : Bool) (sent : Option (Step × (Int × Int))) (v : Server) : Server :=
  match sent with
  | none => v
  | some (m, score) =>
    if m.clock = "FULLTIME" then publishSettlement v (cycleAt boot now) ⟨score.1, score.2⟩ ready else v

/-! ## The rows of a scenario -/

def rows (s : Scenario) : List (Step × (Int × Int)) := template.zip (scorelines s)

/-- The result a scenario is named after. -/
def finalOf : Scenario → Int × Int
  | .away => (1, 2)
  | .draw => (1, 1)
  | .home => (2, 1)

theorem rows_length (s : Scenario) : (rows s).length = 15 := by cases s <;> rfl

theorem row_eq (l : Link) : l.row = (rows l.scenario)[l.guard]? := by
  rw [rows, List.zip, List.getElem?_zipWith, Link.row]
  cases template[l.guard]? with
  | none => rfl
  | some m => cases (scorelines l.scenario)[l.guard]? <;> rfl

/-- Only the last row is at full time, with the scenario's result. -/
theorem fulltime_row {s : Scenario} {i : Nat} {r : Step × (Int × Int)} (h : (rows s)[i]? = some r) (hclock : r.1.clock = "FULLTIME") :
    i = 14 ∧ r.2 = finalOf s := by
  have hall : ∀ s, ∀ x ∈ (rows s).zipIdx, x.1.1.clock = "FULLTIME" → x.2 = 14 ∧ x.1.2 = finalOf s := by
    intro s
    cases s <;> decide +kernel
  exact hall s (r, i) (List.mem_zipIdx_iff_getElem?.mpr h) hclock

/-- Scores and totals never fall. -/
theorem rows_rise (s : Scenario) : (rows s).IsChain fun r q =>
    r.2.1 ≤ q.2.1 ∧ r.2.2 ≤ q.2.2 ∧ r.1.stats.shots ≤ q.1.stats.shots ∧
      r.1.stats.shotsOnTarget ≤ q.1.stats.shotsOnTarget ∧ r.1.stats.dangerousAttacks ≤ q.1.stats.dangerousAttacks := by
  cases s <;> decide +kernel

theorem turn_cases (l : Link) :
    (l.turn.2 = none ∧ l.turn.1.scenario = l.scenario ∧ l.turn.1.kickoff = l.kickoff ∧ l.turn.1.guard = l.guard) ∨
      ∃ r, (rows l.scenario)[l.guard]? = some r ∧ l.turn = ({ l with guard := l.guard + 1 }, some r) := by
  unfold Link.turn
  split
  · exact Or.inl ⟨rfl, rfl, rfl, rfl⟩
  · split
    · exact Or.inl ⟨rfl, rfl, rfl, rfl⟩
    · rename_i hguard
      rw [not_or] at hguard
      have hlt : l.guard < (rows l.scenario).length := by
        rw [rows_length]
        exact Nat.lt_of_not_le hguard.2
      rw [row_eq, List.getElem?_eq_getElem hlt]
      exact Or.inr ⟨_, rfl, rfl⟩

end CasuyaLive.Vendor
