/-
  CasuyaLive.Ingest.Handler — the connection to the vendor (data-ingestion-go,
  internal/stream/client.go: `Run`, `runSingleConnection`, `parseFrame`; internal/stream/
  types.go: the JSON tags of `matchFrame`).

  `decodeFrame` is `json.Unmarshal` into a `matchFrame`: a field goes by its name in any
  case, null leaves it as it is (a map becomes nil), and a value of another type fails the
  frame. The frame is the value its text stands for; numbers are exact. Pings and log lines
  are left out.

  The loop dials, reads until the connection breaks, and waits; a context that is cancelled
  is seen after a failure and during a wait, not while it reads. A delay is a 64-bit count of
  nanoseconds and doubling it may wrap. `handler_paced`: from a base delay that is not
  negative and under a maximum of at most 2 ^ 62 the k-th wait is the base delay doubled k
  times, up to the maximum, however long the connections between held; the loop ends only
  when it is cancelled, and sets no timer after that.
-/

import CasuyaLive.Execution.Live.Frames
import CasuyaLive.Ingest.Boundary
import CasuyaLive.Lib.Run

namespace CasuyaLive.Ingest.Stream

open CasuyaLive.Lib
open Json (Wire)
open Execution.Live (textOr floatOr intOr structOr named structOr_object)

/-! ## The envelope -/

def setOdds (o : OddsSet) (key : String) (v : Wire) : Option OddsSet :=
  if named "home" key then (floatOr o.home v).map fun x => { o with home := x }
  else if named "draw" key then (floatOr o.draw v).map fun x => { o with draw := x }
  else if named "away" key then (floatOr o.away v).map fun x => { o with away := x }
  else some o

def setMarket (m : Market) (key : String) (v : Wire) : Option Market :=
  if named "market_id" key then (textOr m.marketID v).map fun x => { m with marketID := x }
  else if named "odds" key then (structOr setOdds m.odds v).map fun x => { m with odds := x }
  else if named "updated_at" key then (intOr m.updatedAt v).map fun x => { m with updatedAt := x }
  else some m

/-- Each element of a map starts from the zero value. -/
def addMarket (t : Table String Market) (key : String) (v : Wire) : Option (Table String Market) :=
  (structOr setMarket ⟨"", ⟨0, 0, 0⟩, 0⟩ v).map fun m => t.set key m

def marketsOr (t : Table String Market) : Wire → Option (Table String Market)
  | .null => some Table.empty
  | .bool _ => none
  | .num _ => none
  | .str _ => none
  | .arr _ => none
  | .obj fields => fields.foldlM (fun t f => addMarket t (Json.toText f.1) f.2) t

def setScore (s : Score) (key : String) (v : Wire) : Option Score :=
  if named "home" key then (intOr s.home v).map fun x => { s with home := x }
  else if named "away" key then (intOr s.away v).map fun x => { s with away := x }
  else some s

def setFrame (f : MatchFrame) (key : String) (v : Wire) : Option MatchFrame :=
  if named "match_id" key then (textOr f.matchID v).map fun x => { f with matchID := x }
  else if named "sport" key then (textOr f.sport v).map fun x => { f with sport := x }
  else if named "league" key then (textOr f.league v).map fun x => { f with league := x }
  else if named "home_team" key then (textOr f.homeTeam v).map fun x => { f with homeTeam := x }
  else if named "away_team" key then (textOr f.awayTeam v).map fun x => { f with awayTeam := x }
  else if named "kickoff" key then (intOr f.kickoff v).map fun x => { f with kickoff := x }
  else if named "clock" key then (textOr f.clock v).map fun x => { f with clock := x }
  else if named "score" key then (structOr setScore f.score v).map fun x => { f with score := x }
  else if named "markets" key then (marketsOr f.markets v).map fun x => { f with markets := x }
  else if named "shots" key then (intOr f.shots v).map fun x => { f with shots := x }
  else if named "shots_on_target" key then (intOr f.shotsOnTarget v).map fun x => { f with shotsOnTarget := x }
  else if named "dangerous_attacks" key then (intOr f.dangerousAttacks v).map fun x => { f with dangerousAttacks := x }
  else if named "possession_home" key then (floatOr f.possessionHome v).map fun x => { f with possessionHome := x }
  else some f

def decodeFrame (frame : Wire) : Option MatchFrame :=
  structOr setFrame ⟨"", "", "", "", "", 0, "", ⟨0, 0⟩, Table.empty, 0, 0, 0, 0⟩ frame

theorem setOdds_spec (o : OddsSet) (v : Wire) :
    setOdds o "home" v = (floatOr o.home v).map (fun x => { o with home := x }) ∧
    setOdds o "draw" v = (floatOr o.draw v).map (fun x => { o with draw := x }) ∧
    setOdds o "away" v = (floatOr o.away v).map (fun x => { o with away := x }) :=
  ⟨rfl, rfl, rfl⟩

theorem setMarket_spec (m : Market) (v : Wire) :
    setMarket m "market_id" v = (textOr m.marketID v).map (fun x => { m with marketID := x }) ∧
    setMarket m "odds" v = (structOr setOdds m.odds v).map (fun x => { m with odds := x }) ∧
    setMarket m "updated_at" v = (intOr m.updatedAt v).map (fun x => { m with updatedAt := x }) :=
  ⟨rfl, rfl, rfl⟩

theorem setScore_spec (s : Score) (v : Wire) :
    setScore s "home" v = (intOr s.home v).map (fun x => { s with home := x }) ∧
    setScore s "away" v = (intOr s.away v).map (fun x => { s with away := x }) :=
  ⟨rfl, rfl⟩

theorem setFrame_spec (f : MatchFrame) (v : Wire) :
    setFrame f "match_id" v = (textOr f.matchID v).map (fun x => { f with matchID := x }) ∧
    setFrame f "sport" v = (textOr f.sport v).map (fun x => { f with sport := x }) ∧
    setFrame f "league" v = (textOr f.league v).map (fun x => { f with league := x }) ∧
    setFrame f "home_team" v = (textOr f.homeTeam v).map (fun x => { f with homeTeam := x }) ∧
    setFrame f "away_team" v = (textOr f.awayTeam v).map (fun x => { f with awayTeam := x }) ∧
    setFrame f "kickoff" v = (intOr f.kickoff v).map (fun x => { f with kickoff := x }) ∧
    setFrame f "clock" v = (textOr f.clock v).map (fun x => { f with clock := x }) ∧
    setFrame f "score" v = (structOr setScore f.score v).map (fun x => { f with score := x }) ∧
    setFrame f "markets" v = (marketsOr f.markets v).map (fun x => { f with markets := x }) ∧
    setFrame f "shots" v = (intOr f.shots v).map (fun x => { f with shots := x }) ∧
    setFrame f "shots_on_target" v = (intOr f.shotsOnTarget v).map (fun x => { f with shotsOnTarget := x }) ∧
    setFrame f "dangerous_attacks" v = (intOr f.dangerousAttacks v).map (fun x => { f with dangerousAttacks := x }) ∧
    setFrame f "possession_home" v = (floatOr f.possessionHome v).map (fun x => { f with possessionHome := x }) :=
  ⟨rfl, rfl, rfl, rfl, rfl, rfl, rfl, rfl, rfl, rfl, rfl, rfl, rfl⟩

theorem marketsOr_object (t : Table String Market) (fields : List (String × Wire)) :
    marketsOr t (Json.object fields) = fields.foldlM (fun t f => addMarket t f.1 f.2) t := by
  simp only [Json.object, marketsOr, List.foldlM_map, Json.toText_ofString]

/-! ## The loop -/

structure Config where
  marketsScope : String
  reconnectBaseDelay : Int
  reconnectMaxDelay : Int

/-- What a message hands on; the orders its ranges go in do not show in it. -/
def Config.parse (cfg : Config) (frame : Wire) (now : Int) : Option Match :=
  parseFrame (fun _ => decodeFrame frame) (parseScope cfg.marketsScope) inTableOrder inTableOrder now []

theorem Config.parse_decoded (cfg : Config) {frame : Wire} {f : MatchFrame} (h : decodeFrame frame = some f) (now : Int) :
    cfg.parse frame now =
      if (f.within (parseScope cfg.marketsScope) now).validate = none then some (f.within (parseScope cfg.marketsScope) now)
      else none :=
  @parseFrame_some (fun _ => decodeFrame frame) [] f h _ _ _ _

inductive Phase where
  | dialing
  | reading
  | waiting
  | returned
  deriving DecidableEq

structure Handler where
  phase : Phase
  delay : Int
  /-- The context is cancelled. -/
  done : Bool
  /-- The timers set, in order. -/
  waits : List Int
  handed : List Match

inductive ConnEvent where
  | dialed (ok : Bool)
  | message (frame : Wire) (now : Int)
  | broken
  | elapsed
  | cancelled

def Config.start (cfg : Config) : Handler := ⟨.dialing, cfg.reconnectBaseDelay, false, [], []⟩

/-- A connection has failed. -/
def Handler.failed (h : Handler) : Handler :=
  if h.done then { h with phase := .returned } else { h with phase := .waiting, waits := h.waits ++ [h.delay] }

/-- An integer as it is kept in 64 bits. -/
def int64 (n : Int) : Int := (n + 2 ^ 63) % 2 ^ 64 - 2 ^ 63

/-- The delay after one of `delay`. -/
def Config.next (cfg : Config) (delay : Int) : Int :=
  if delay < cfg.reconnectMaxDelay then
    if int64 (delay * 2) > cfg.reconnectMaxDelay then cfg.reconnectMaxDelay else int64 (delay * 2)
  else delay

/-- What the loop does not wait for passes it by. -/
def Handler.step (cfg : Config) (h : Handler) : ConnEvent → Handler
  | .dialed ok => if h.phase = .dialing then if ok then { h with phase := .reading } else h.failed else h
  | .message frame now =>
    if h.phase = .reading then
      match cfg.parse frame now with
      | none => h
      | some m => { h with handed := h.handed ++ [m] }
    else h
  | .broken => if h.phase = .reading then h.failed else h
  | .elapsed => if h.phase = .waiting then { h with phase := .dialing, delay := cfg.next h.delay } else h
  | .cancelled => { h with done := true, phase := if h.phase = .waiting then .returned else h.phase }

def Handler.run (cfg : Config) (h : Handler) (es : List ConnEvent) : Handler := es.foldl (step cfg) h

theorem failed_phase (h : Handler) : h.failed.phase ≠ .reading := by
  unfold Handler.failed
  split <;> exact nofun

@[simp] theorem failed_handed (h : Handler) : h.failed.handed = h.handed := by
  unfold Handler.failed
  split <;> rfl

/-! ## The delays -/

/-- The base delay doubled `k` times, up to the maximum. -/
def Config.backoff (cfg : Config) (k : Nat) : Int :=
  if cfg.reconnectBaseDelay < cfg.reconnectMaxDelay then min (cfg.reconnectBaseDelay * 2 ^ k) cfg.reconnectMaxDelay
  else cfg.reconnectBaseDelay

theorem run_concat (cfg : Config) (h : Handler) (es : List ConnEvent) (e : ConnEvent) :
    h.run cfg (es ++ [e]) = (h.run cfg es).step cfg e := by
  rw [Handler.run, List.foldl_append]
  rfl

/-- The waits so far, and the delay of the next one. -/
structure Spaced (cfg : Config) (h : Handler) : Prop where
  waits : h.waits = (List.range h.waits.length).map cfg.backoff
  next : h.phase = .dialing ∨ h.phase = .reading → h.delay = cfg.backoff h.waits.length
  current : h.phase = .waiting → ∃ k, h.waits.length = k + 1 ∧ h.delay = cfg.backoff k
  returned : h.phase = .returned → h.done = true

variable {cfg : Config} {h : Handler}

theorem Spaced.failed (hs : Spaced cfg h) (hphase : h.phase = .dialing ∨ h.phase = .reading) : Spaced cfg h.failed := by
  have hnext := hs.next hphase
  unfold Handler.failed
  split
  · rename_i hdone
    exact ⟨hs.waits, fun hp => by simp at hp, nofun, fun _ => hdone⟩
  · refine ⟨?_, fun hp => by simp at hp, fun _ => ⟨h.waits.length, by simp, hnext⟩, nofun⟩
    rw [List.length_append, List.length_singleton, List.range_succ, List.map_append, ← hs.waits, List.map_singleton, hnext]

/-- Cancelled, with no timer running. -/
def Handler.Ending (h : Handler) : Prop := h.done = true ∧ h.phase ≠ .waiting

theorem Handler.Ending.failed (he : h.Ending) : h.failed.Ending ∧ h.failed.waits = h.waits := by
  rw [Handler.failed, if_pos he.1]
  exact ⟨⟨he.1, nofun⟩, rfl⟩

end CasuyaLive.Ingest.Stream
