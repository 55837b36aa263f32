/-
  CasuyaLive.Vendor.Server — the simulated bookmaker (mock-vendor, server.js: `cycleAt`,
  `fmt`, `publishSettlement`, the order branch of `tradeServer`).

  The book maps order ids to fills in the order of the fills. A FULLTIME frame of the feed
  publishes the book as one settlement, if the Redis client is ready at that moment, and
  empties it either way. Numbers are exact, and a frame is the value that its text stands
  for.

  Not in the source: beside each published frame the score it was published with.
-/

import CasuyaLive.Execution.Live.Broker
import CasuyaLive.Lib.Json

namespace CasuyaLive.Vendor

open CasuyaLive.Lib CasuyaLive.Execution
open Json (Wire text object)

/-! ## The clock -/

/-- A time that a JavaScript date can hold. -/
structure JsDate where
  ms : Int
  inRange : ms.natAbs ≤ 8640000000000000

def cycleMs : Int := 40000

/-- The server pretends to have started 31 minutes early. -/
def bootEpoch (boot : JsDate) : Int := boot.ms / 1000 - 31 * 60

def cycleAt (boot now : JsDate) : Int := 1 + (now.ms - bootEpoch boot * 1000) / cycleMs

theorem cycleAt_bound (boot now : JsDate) : (cycleAt boot now).natAbs < 2 ^ 53 := by
  have h1 := boot.inRange
  have h2 := now.inRange
  simp only [cycleAt, bootEpoch, cycleMs]
  omega

/-! ## The book -/

/-- `Number(n.toFixed(2))`; from 10 to the 21st on `toFixed` prints the number itself. -/
def fmt (n : ℚ) : ℚ := if |n| < 10 ^ 21 then cents n else n

structure Published where
  frame : Wire
  score : Live.Score

structure Server where
  book : Table String SettlementOrder
  orderSeq : Nat
  published : List Published

def start : Server := ⟨Table.empty, 0, []⟩

/-- The id of an order by its number, from zero. -/
def idOf (n : Nat) : String := "M" ++ (n + 1).repr

def fill (v : Server) (market side : String) (odds stake : ℚ) : Server :=
  { v with book := v.book.set (idOf v.orderSeq) ⟨idOf v.orderSeq, market, side, odds, stake⟩, orderSeq := v.orderSeq + 1 }

def orderWire (o : SettlementOrder) : Wire :=
  object [("order_id", text o.orderID), ("market", text o.market), ("side", text o.side), ("odds", .num (fmt o.odds)),
    ("stake", .num (fmt o.stake))]

def settlementWire (cycle : Int) (score : Live.Score) (orders : List SettlementOrder) : Wire :=
  object [("type", text "settlement"), ("cycle", .num cycle), ("match_id", text "epl-2026-0042"),
    ("final_score", object [("home", .num score.home), ("away", .num score.away)]),
    ("orders", .arr (orders.map orderWire))]

def orders (v : Server) : List SettlementOrder := v.book.entries.map (·.2)

def publishSettlement (v : Server) (cycle : Int) (score : Live.Score) (ready : Bool) : Server :=
  if (orders v).isEmpty then v
  else
    { v with published := if ready then v.published ++ [⟨settlementWire cycle score (orders v), score⟩] else v.published
             book := (orders v).foldl (fun book o => book.erase o.orderID) v.book }

inductive Event where
  | fill (market side : String) (odds stake : ℚ)
  /-- A FULLTIME frame goes out; whether the Redis client is ready. -/
  | fulltime (score : Live.Score) (now : JsDate) (ready : Bool)

def step (boot : JsDate) (v : Server) : Event → Server
  | .fill market side odds stake => fill v market side odds stake
  | .fulltime score now ready => publishSettlement v (cycleAt boot now) score ready

def run (boot : JsDate) (v : Server) (es : List Event) : Server := es.foldl (step boot) v

/-! ## Ids -/

theorem idOf_inj {m n : Nat} (h : idOf m = idOf n) : m = n := by
  have hl := congrArg String.toList h
  simp only [idOf, String.toList_append, List.append_cancel_left_eq, Nat.toList_repr] at hl
  have hd := congrArg Text.decimal hl
  rw [Text.decimal_toDigits, Text.decimal_toDigits] at hd
  omega

end CasuyaLive.Vendor
