/-
  CasuyaLive.Execution.Settle — grading fills against a final score (execution-engine-go,
  internal/broker/settle.go).

  Odds, stakes and money are exact rationals, scores doubles. `settlementTotals` is a sum of one
  delta an order (`settlementTotals_eq`), so the totals of two batches add up
  (`settlementTotals_append`) in any order (`settlementTotals_perm`).
-/

import Mathlib.Algebra.BigOperators.Group.List.Basic
import Mathlib.Data.Rat.Floor
import CasuyaLive.Lib.Float64

namespace CasuyaLive.Execution

open CasuyaLive.Lib

/-- A confirmed order. -/
structure Fill where
  orderID : String
  market : String
  side : String
  odds : ℚ
  stake : ℚ
  matchID : String
  fillAt : Int
  deriving DecidableEq

structure SettlementOrder where
  orderID : String
  market : String
  side : String
  odds : ℚ
  stake : ℚ
  deriving DecidableEq

def Fill.order (f : Fill) : SettlementOrder := ⟨f.orderID, f.market, f.side, f.odds, f.stake⟩

inductive Result where
  | won
  | lost
  | void
  | unresolved
  deriving DecidableEq

structure SettledOrder extends SettlementOrder where
  result : Result
  pnl : ℚ
  source : String
  verified : Bool
  deriving DecidableEq

/-- Home and away bets lose on a draw; only draw-side bets win it. -/
def outcomeFor (side : String) (home away : Float64) : Result :=
  if side = "home" then (if away < home then .won else .lost)
  else if side = "away" then (if home < away then .won else .lost)
  else if side = "draw" then (if home.eq away then .won else .lost)
  else .void

/-- `math.Round`: to the nearest integer, halves away from zero. -/
def mathRound (q : ℚ) : Int := if 0 ≤ q then ⌊q + 1 / 2⌋ else -⌊-q + 1 / 2⌋

def cents (q : ℚ) : ℚ := mathRound (q * 100) / 100

/-- Rounded to the cent. -/
def pnlFor (result : Result) (stake odds : ℚ) : ℚ :=
  cents (match result with
    | .won => stake * (odds - 1)
    | .lost => -stake
    | .void => 0
    | .unresolved => 0)

def settleOrder (home away : Float64) (source : String) (verified : Bool) (o : SettlementOrder) : SettledOrder :=
  let result := if verified then outcomeFor o.side home away else .unresolved
  { o with result := result, pnl := pnlFor result o.stake o.odds, source := source, verified := verified }

def settleOrders (orders : List SettlementOrder) (home away : Float64) (source : String) (verified : Bool) : List SettledOrder :=
  orders.map (settleOrder home away source verified)

/-! ## Totals -/

@[ext] structure Totals where
  net : ℚ
  won : Int
  lost : Int
  void : Int
  deriving DecidableEq

namespace Totals

instance : Zero Totals := ⟨⟨0, 0, 0, 0⟩⟩
instance : Add Totals := ⟨fun a b => ⟨a.net + b.net, a.won + b.won, a.lost + b.lost, a.void + b.void⟩⟩
instance : Neg Totals := ⟨fun a => ⟨-a.net, -a.won, -a.lost, -a.void⟩⟩
instance : Sub Totals := ⟨fun a b => ⟨a.net - b.net, a.won - b.won, a.lost - b.lost, a.void - b.void⟩⟩

@[simp] theorem zero_net : (0 : Totals).net = 0 := rfl
@[simp] theorem zero_won : (0 : Totals).won = 0 := rfl
@[simp] theorem zero_lost : (0 : Totals).lost = 0 := rfl
@[simp] theorem zero_void : (0 : Totals).void = 0 := rfl
@[simp] theorem add_net (a b : Totals) : (a + b).net = a.net + b.net := rfl
@[simp] theorem add_won (a b : Totals) : (a + b).won = a.won + b.won := rfl
@[simp] theorem add_lost (a b : Totals) : (a + b).lost = a.lost + b.lost := rfl
@[simp] theorem add_void (a b : Totals) : (a + b).void = a.void + b.void := rfl
@[simp] theorem neg_net (a : Totals) : (-a).net = -a.net := rfl
@[simp] theorem neg_won (a : Totals) : (-a).won = -a.won := rfl
@[simp] theorem neg_lost (a : Totals) : (-a).lost = -a.lost := rfl
@[simp] theorem neg_void (a : Totals) : (-a).void = -a.void := rfl
@[simp] theorem sub_net (a b : Totals) : (a - b).net = a.net - b.net := rfl
@[simp] theorem sub_won (a b : Totals) : (a - b).won = a.won - b.won := rfl
@[simp] theorem sub_lost (a b : Totals) : (a - b).lost = a.lost - b.lost := rfl
@[simp] theorem sub_void (a b : Totals) : (a - b).void = a.void - b.void := rfl

instance : AddCommGroup Totals where
  add_assoc a b c := by ext <;> simp [add_assoc]
  zero_add a := by ext <;> simp
  add_zero a := by ext <;> simp
  add_comm a b := by ext <;> simp [add_comm]
  neg_add_cancel a := by ext <;> simp
  sub_eq_add_neg a b := by ext <;> simp [sub_eq_add_neg]
  nsmul := nsmulRec
  zsmul := zsmulRec

end Totals

/-- An unresolved order counts as a void. -/
def delta (so : SettledOrder) : Totals :=
  match so.result with
  | .won => ⟨so.pnl, 1, 0, 0⟩
  | .lost => ⟨so.pnl, 0, 1, 0⟩
  | .void => ⟨so.pnl, 0, 0, 1⟩
  | .unresolved => ⟨so.pnl, 0, 0, 1⟩

def settlementTotals (settled : List SettledOrder) : Totals := settled.foldl (fun t so => t + delta so) 0

theorem settlementTotals_eq (settled : List SettledOrder) : settlementTotals settled = (settled.map delta).sum := by
  have h : ∀ (l : List SettledOrder) (t : Totals), l.foldl (fun t so => t + delta so) t = t + (l.map delta).sum := by
    intro l
    induction l with
    | nil => intro t; simp
    | cons so l ih => intro t; rw [List.foldl_cons, ih, List.map_cons, List.sum_cons, add_assoc]
  rw [settlementTotals, h, zero_add]

@[simp] theorem settlementTotals_nil : settlementTotals [] = 0 := rfl

@[simp] theorem settlementTotals_append (a b : List SettledOrder) :
    settlementTotals (a ++ b) = settlementTotals a + settlementTotals b := by
  simp only [settlementTotals_eq, List.map_append, List.sum_append]

/-- Every order is won, lost or void. -/
theorem settlementTotals_count (settled : List SettledOrder) :
    (settlementTotals settled).won + (settlementTotals settled).lost + (settlementTotals settled).void = settled.length := by
  have hone : ∀ so, (delta so).won + (delta so).lost + (delta so).void = 1 := by
    intro so
    unfold delta
    cases so.result <;> rfl
  induction settled with
  | nil => rfl
  | cons so settled ih =>
    have h := hone so
    rw [settlementTotals_eq] at ih ⊢
    simp only [List.map_cons, List.sum_cons, Totals.add_won, Totals.add_lost, Totals.add_void, List.length_cons]
    omega

theorem settlementTotals_perm {a b : List SettledOrder} (h : a.Perm b) : settlementTotals a = settlementTotals b := by
  simp only [settlementTotals_eq]
  exact (h.map delta).sum_eq

/-- An order that is never verified moves no money. -/
theorem unresolved_pnl (stake odds : ℚ) : pnlFor .unresolved stake odds = 0 := by
  simp [pnlFor, cents, mathRound]
  norm_num

theorem settleOrders_ids (orders : List SettlementOrder) (home away : Float64) (source : String) (verified : Bool) :
    (settleOrders orders home away source verified).map (·.orderID) = orders.map (·.orderID) := by
  simp only [settleOrders, List.map_map]
  rfl

end CasuyaLive.Execution
