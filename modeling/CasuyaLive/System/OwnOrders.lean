/-
  CasuyaLive.System.OwnOrders — one FULLTIME frame against the pending paper orders
  (execution-engine-go, internal/broker/interfaces.go: `PaperRunLoop`, `ExecuteEnvelope`;
  internal/broker/settle.go: `outcomeFor`, `settleOrders`).

  `iteration` is a whole iteration of the run loop that nothing interrupts and whose writes
  all take effect (`iteration_alone`). `settles_own_iff`: it removes, grades and records
  exactly the orders of the frame's match, and leaves the rest, iff no pending order is of no
  match, or the frame itself is of none. An envelope without a match id is executed, and
  every frame takes its order for one of its own (`any_match_settles_an_order_of_none`).
-/

import CasuyaLive.Execution.Paper.Failures
import CasuyaLive.System.Acknowledgements

namespace CasuyaLive.System

open CasuyaLive.Lib CasuyaLive.Execution

/-- One message of the run loop. -/
def iteration (s : Paper.Broker) (f : Paper.Frame) (now : Int) : Paper.Broker :=
  match Paper.feedBatch s.pending f with
  | none => s
  | some b => Paper.settleBatch now Paper.allWrites b s

/-- The loop takes the frame, and then its steps one after another. -/
theorem iteration_alone (s : Paper.Broker) (f : Paper.Frame) (now : Int) (h : s.loop = none) :
    ∃ n, Paper.run s (.frame f :: List.replicate n (.loop now)) = { iteration s f now with loop := none } := by
  cases hb : Paper.feedBatch s.pending f with
  | none =>
    refine ⟨0, ?_⟩
    simp only [Paper.run, List.replicate_zero, List.foldl_cons, List.foldl_nil, Paper.step, h, hb, iteration, Option.map_none]
  | some b =>
    refine ⟨3 + (b.settled.length + 4), ?_⟩
    have htaken : Paper.step s (.frame f) = { s with loop := some (Paper.started b) } := by
      simp only [Paper.step, h, hb, Option.map_some]
    have halone := Paper.loop_alone { s with loop := some (Paper.started b) } now b rfl
    rw [Paper.run, List.foldl_cons, ← Paper.run, htaken, halone, iteration, hb]
    rfl

/-! ## The match's own orders -/

/-- The decodable orders of the match. -/
def ownFills (o : Paper.Orders) (m : String) : List Fill := (o.fills.filter (·.2.matchID == m)).map (·.2)

/-- The order under the frame's score. -/
def gradedFill (home away : Float64) (fill : Fill) : SettledOrder :=
  { orderID := fill.orderID
    market := fill.market
    side := fill.side
    odds := fill.odds
    stake := fill.stake
    result := outcomeFor fill.side home away
    pnl := pnlFor (outcomeFor fill.side home away) fill.stake fill.odds
    source := "feed_ft"
    verified := true }

/-- The frame settles the orders of its match, and only these. -/
structure SettlesOwn (s : Paper.Broker) (f : Paper.Frame) (now : Int) (home away : Float64) : Prop where
  removed : ∀ id fill, s.pending.table.get? id = some (some fill) → fill.matchID = f.matchID →
    (iteration s f now).pending.table.get? id = none
  kept : ∀ id, (∀ fill, s.pending.table.get? id = some (some fill) → fill.matchID ≠ f.matchID) →
    (iteration s f now).pending.table.get? id = s.pending.table.get? id
  graded : (iteration s f now).credited = s.credited ++ (ownFills s.pending f.matchID).map (gradedFill home away)
  counted : (iteration s f now).hash =
    s.hash + settlementTotals ((ownFills s.pending f.matchID).map (gradedFill home away))
  recorded : (iteration s f now).ledger = s.ledger ++ (ownFills s.pending f.matchID).map fun fill =>
    { gradedFill home away fill with matchID := f.matchID, scoreHome := home, scoreAway := away, settledAt := now / 1000000 }

/-- No pending order is of no match, unless the frame is of none either. -/
def NoStray (o : Paper.Orders) (m : String) : Prop :=
  m = "" ∨ ∀ id fill, o.table.get? id = some (some fill) → fill.matchID ≠ ""

theorem picked_own {o : Paper.Orders} {m : String} (h : NoStray o m) :
    o.fills.filter (Paper.ofMatch m) = o.fills.filter (·.2.matchID == m) := by
  refine List.filter_congr fun x hx => ?_
  rcases h with rfl | h
  · simp [Paper.ofMatch]
  · have hne := h x.1 x.2 ((o.mem_fills x.1 x.2).mp hx)
    simp [Paper.ofMatch, hne]

/-- What the iteration picks. -/
theorem feedBatch_own {o : Paper.Orders} {f : Paper.Frame} {home away : Int} (hclock : f.clock = "FULLTIME")
    (hscore : f.score = some (home, away)) : Paper.feedBatch o f =
      if (o.fills.filter (Paper.ofMatch f.matchID)).isEmpty then none
      else some
        { matchID := f.matchID
          home := home
          away := away
          settled := settleOrders ((o.fills.filter (Paper.ofMatch f.matchID)).map (·.2.order)) home away "feed_ft" true
          ids := (o.fills.filter (Paper.ofMatch f.matchID)).map (·.1) } := by
  simp only [Paper.feedBatch, hclock, hscore, ne_eq, not_true_eq_false, if_false]

theorem settleOrders_graded (home away : Float64) (fills : List (String × Fill)) :
    settleOrders (fills.map (·.2.order)) home away "feed_ft" true = (fills.map (·.2)).map (gradedFill home away) := by
  rw [settleOrders, List.map_map, List.map_map]
  rfl

/-- The iteration over what it picks, none picked included. -/
theorem iteration_eq (s : Paper.Broker) {f : Paper.Frame} (now : Int) {home away : Int} (hclock : f.clock = "FULLTIME")
    (hscore : f.score = some (home, away)) :
    let picked := s.pending.fills.filter (Paper.ofMatch f.matchID)
    let settled := (picked.map (·.2)).map (gradedFill home away)
    (∀ id, (iteration s f now).pending.table.get? id =
      if id ∈ picked.map (·.1) then none else s.pending.table.get? id) ∧
    (iteration s f now).credited = s.credited ++ settled ∧
    (iteration s f now).hash = s.hash + settlementTotals settled ∧
    (iteration s f now).ledger = s.ledger ++ settled.map fun so =>
      { so with matchID := f.matchID, scoreHome := home, scoreAway := away, settledAt := now / 1000000 } := by
  simp only [iteration, feedBatch_own hclock hscore, settleOrders_graded]
  by_cases hnone : (s.pending.fills.filter (Paper.ofMatch f.matchID)).isEmpty = true
  · rw [if_pos hnone]
    rw [List.isEmpty_iff] at hnone
    simp [hnone]
  · rw [if_neg hnone]
    simp [Paper.settleBatch, Paper.allWrites, Paper.Orders.remove, Table.get?_eraseAll, Paper.Batch.totals, Paper.Batch.entries]

/-- A stray order goes with the orders of another match. -/
theorem stray_settled (s : Paper.Broker) {f : Paper.Frame} (now : Int) {home away : Int} (hclock : f.clock = "FULLTIME")
    (hscore : f.score = some (home, away)) {id : String} {fill : Fill} (hm : f.matchID ≠ "")
    (hin : s.pending.table.get? id = some (some fill)) (hnone : fill.matchID = "") : ¬ SettlesOwn s f now home away := by
  intro h
  obtain ⟨hpending, -⟩ := iteration_eq s now hclock hscore
  have hpicked : id ∈ (s.pending.fills.filter (Paper.ofMatch f.matchID)).map (·.1) := by
    refine List.mem_map.mpr ⟨(id, fill), List.mem_filter.mpr ⟨(s.pending.mem_fills id fill).mpr hin, ?_⟩, rfl⟩
    simp [Paper.ofMatch, hnone]
  have hkept := h.kept id fun fill' hin' => by
    rw [hin] at hin'
    cases hin'
    rw [hnone]
    exact Ne.symm hm
  rw [hpending, if_pos hpicked, hin] at hkept
  cases hkept

theorem settlesOwn_of_noStray (s : Paper.Broker) {f : Paper.Frame} (now : Int) {home away : Int}
    (hclock : f.clock = "FULLTIME") (hscore : f.score = some (home, away)) (h : NoStray s.pending f.matchID) :
    SettlesOwn s f now home away := by
  obtain ⟨hpending, hcredited, hhash, hledger⟩ := iteration_eq s now hclock hscore
  rw [picked_own h] at hpending hcredited hhash hledger
  have hmem : ∀ id, id ∈ (s.pending.fills.filter (·.2.matchID == f.matchID)).map (·.1) ↔
      ∃ fill, s.pending.table.get? id = some (some fill) ∧ fill.matchID = f.matchID := by
    intro id
    rw [List.mem_map]
    constructor
    · intro hx
      obtain ⟨⟨id', fill⟩, hx, rfl⟩ := hx
      rw [List.mem_filter, beq_iff_eq] at hx
      exact ⟨fill, (s.pending.mem_fills id' fill).mp hx.1, hx.2⟩
    · intro h
      obtain ⟨fill, hin, hm⟩ := h
      exact ⟨(id, fill), List.mem_filter.mpr ⟨(s.pending.mem_fills id fill).mpr hin, by simpa using hm⟩, rfl⟩
  refine ⟨fun id fill hin hm => ?_, fun id hother => ?_, hcredited, hhash, ?_⟩
  · rw [hpending, if_pos ((hmem id).mpr ⟨fill, hin, hm⟩)]
  · rw [hpending, if_neg]
    rw [hmem]
    intro h
    obtain ⟨fill, hin, hm⟩ := h
    exact hother fill hin hm
  · rw [hledger, List.map_map, ownFills]
    rfl

/-- A frame settles exactly the orders of its match iff no stray order is pending. -/
theorem settles_own_iff (s : Paper.Broker) {f : Paper.Frame} (now : Int) {home away : Int} (hclock : f.clock = "FULLTIME")
    (hscore : f.score = some (home, away)) : SettlesOwn s f now home away ↔ NoStray s.pending f.matchID := by
  constructor
  · intro h
    by_contra hstray
    rw [NoStray, not_or] at hstray
    obtain ⟨hm, hstray⟩ := hstray
    push Not at hstray
    obtain ⟨id, fill, hin, hnone⟩ := hstray
    exact stray_settled s now hclock hscore hm hin hnone h
  · exact settlesOwn_of_noStray s now hclock hscore

/-- An order of m1 and one of m2. -/
def twoMatches : Paper.Orders :=
  (Paper.Orders.empty.insert ⟨"paper_1", "1X2", "home", 5, 25, "m1", 1⟩).insert ⟨"paper_2", "1X2", "away", 5, 25, "m2", 2⟩

theorem m1_settles_its_order :
    SettlesOwn (Paper.start twoMatches Table.empty 0) ⟨"FULLTIME", "m1", some (1, 0)⟩ 0 (1 : Int) (0 : Int) := by
  refine (settles_own_iff (Paper.start twoMatches Table.empty 0) 0 rfl rfl).mpr (Or.inr ?_)
  intro id fill hin
  have hnamed : ∀ x ∈ twoMatches.fills, x.2.matchID ≠ "" := by decide +kernel
  exact hnamed (id, fill) ((twoMatches.mem_fills id fill).mpr hin)

/-! ## Where a stray order comes from -/

variable {d : Doubles} {hmac : Analytics.Hmac} {accessToken : String}

/-- Every accepted envelope names a match. -/
def Named (d : Doubles) (hmac : Analytics.Hmac) (accessToken : String) (e : PaperEvent) : Prop :=
  ∀ c ∈ callOf accessToken e, ∀ p, Live.decodeEnvelope d hmac c.1 "" = .ok p → 0 < d.val p.amount → p.matchID ≠ ""

def AllNamed (o : Paper.Orders) : Prop := ∀ id fill, o.table.get? id = some (some fill) → fill.matchID ≠ ""

theorem executeEnvelope_named {s : Book} (h : AllNamed s.orders) (raw : String) (x : Answers)
    (hraw : ∀ p, Live.decodeEnvelope d hmac raw "" = .ok p → 0 < d.val p.amount → p.matchID ≠ "") :
    AllNamed (executeEnvelope d hmac s raw x).2.orders := by
  rcases @executeEnvelope_cases d hmac s raw x with ⟨e, he, -⟩ | ⟨p, fill, hp, hpos, -, hof, he⟩
  · rw [he]
    exact h
  · rw [he, publishSignal_orders, logFill_orders]
    cases x.recorded with
    | false => exact h
    | true =>
      intro id fill' hin
      simp only [if_true, Paper.Orders.insert, Table.get?_set] at hin
      split at hin
      · cases hin
        rw [hof.matchID]
        exact hraw p hp hpos
      · exact h id fill' hin

/-- Envelopes with a match id leave no stray order. -/
theorem answer_named {s : Book} (h : AllNamed s.orders) {e : PaperEvent} (he : Named d hmac accessToken e) :
    AllNamed (answer d hmac accessToken s e).orders := by
  cases e with
  | command raw x => exact executeEnvelope_named h raw x (he (raw, x) rfl)
  | http r x =>
    rcases @httpExecute_cases d hmac accessToken s r x with
      ⟨raw, hcall, hsame, -⟩ | ⟨-, hsame, -⟩
    · rw [answer, hsame]
      exact executeEnvelope_named h raw x (he (raw, x) hcall)
    · rw [answer, hsame]
      exact h
  | graded ids =>
    intro id fill hin
    exact h id fill (Paper.remove_pending hin)

/-- Over envelopes that name a match, every FULLTIME frame settles exactly its own. -/
theorem named_settle_own (es : List PaperEvent) (h : ∀ e ∈ es, Named d hmac accessToken e) (m : String) :
    NoStray (es.foldl (answer d hmac accessToken) Book.empty).orders m := by
  refine Or.inr ?_
  refine run_inv (C := fun _ e => Named d hmac accessToken e) (fun s : Book => AllNamed s.orders)
    (fun s e hs he => answer_named hs he) ?_ (meets_forall.mpr h)
  intro id fill hin
  simp [Book.empty, Paper.Orders.empty] at hin

/-- An unsigned envelope without a match id: 25 on home at 5. -/
def stray : String := "eyJtYXJrZXRfaWQiOiIxWDIiLCJzaWRlIjoiaG9tZSIsIm9kZHMiOjUsImFtb3VudCI6MjV9."

/-- What the hash holds after it. -/
def strayOrders : Paper.Orders :=
  (answer decimals (fun _ _ => []) "" Book.empty (.command stray ⟨1714571280000000000, true, none, true⟩)).orders

/-- The FULLTIME frame of m1 takes the order of no match for one of its own. -/
theorem any_match_settles_an_order_of_none :
    ¬ SettlesOwn (Paper.start strayOrders Table.empty 0) ⟨"FULLTIME", "m1", some (1, 0)⟩ 0 (1 : Int) (0 : Int) := by
  obtain ⟨p, hp, hm, hpos⟩ := @decodes stray "" (by decide +kernel)
  rcases @executeEnvelope_cases decimals (fun _ _ => []) Book.empty stray ⟨1714571280000000000, true, none, true⟩ with
    ⟨e, -, hno⟩ | ⟨q, fill, hq, -, -, hof, he⟩
  · exact absurd hpos (hno p hp)
  · rw [hp] at hq
    cases hq
    have hin : strayOrders.table.get? fill.orderID = some (some fill) := by
      rw [strayOrders, answer, he, publishSignal_orders, logFill_orders]
      simp [Paper.Orders.insert]
    exact stray_settled (Paper.start strayOrders Table.empty 0) 0 rfl rfl (by decide) hin (hof.matchID.trans hm)

end CasuyaLive.System
