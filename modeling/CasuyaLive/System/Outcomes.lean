/-
  CasuyaLive.System.Outcomes — the bankroll of the live path in its three places: the
  broker's session, the PnL hash, and the ledger that the relay keeps of the snapshots
  (execution-engine-go, internal/broker/client.go; web-interface-js, backend/server.js).

  The commands of Redis succeed, and the relay is handed every published snapshot once, in
  order, whenever the schedule says so. A snapshot arrives as the value that it was
  marshalled from, its numbers exact. `record_snapshot`: the relay adds the net, the won and
  the lost of the snapshot's own orders, whatever JavaScript makes of other texts and arrays.
  `accumulators_agree`: once the loop waits and the relay has caught up, the three show the
  totals of the frames graded.
-/

import CasuyaLive.Execution.Live.Broker
import CasuyaLive.Relay.Server

namespace CasuyaLive.System

open CasuyaLive.Lib CasuyaLive.Execution

/-! ## The snapshot on the wire -/

open Json (Wire text object get?_object)

def resultText : Result → String
  | .won => "won"
  | .lost => "lost"
  | .void => "void"
  | .unresolved => "unresolved"

def orderWire (so : SettledOrder) : Wire :=
  object [("order_id", text so.orderID), ("market", text so.market), ("side", text so.side), ("odds", .num so.odds),
    ("stake", .num so.stake), ("result", text (resultText so.result)), ("pnl", .num so.pnl), ("source", text so.source),
    ("verified", .bool so.verified)]

def snapshotWire (snap : Live.PnlSnapshot) : Wire :=
  object [("type", text "pnl"), ("cycle", .num snap.cycle), ("match_id", text snap.matchID),
    ("final_score", object [("home", .num snap.finalScore.home), ("away", .num snap.finalScore.away)]),
    ("settled", .arr (snap.settled.map orderWire)),
    ("session", object [("net", .num snap.session.net), ("won", .num snap.session.won), ("lost", .num snap.session.lost),
      ("void", .num snap.session.void)])]

/-! ## What the relay makes of it -/

/-- The ledger has no voids. -/
def plus (o : Relay.Outcomes) (t : Totals) : Relay.Outcomes := ⟨o.net + t.net, o.won + t.won, o.lost + t.lost⟩

section

variable (ofText : Json.Utf16 → Option ℚ) (ofArray : List Wire → Option ℚ)

/-- Exact numbers, and any reading of texts and arrays as numbers. -/
def exact : Relay.Numbers ℚ := ⟨some, ofText, fun xs => .ok (ofArray xs)⟩

theorem addOrder_wire (t : Relay.Tally) (so : SettledOrder) :
    Relay.addOrder (exact ofText ofArray) t (orderWire so) =
      .ok ⟨t.net.map fun net => net + so.pnl, if so.result = .won then t.won + 1 else t.won,
        if so.result = .lost then t.lost + 1 else t.lost⟩ := by
  have hpnl : (orderWire so).get? (Json.ofString "pnl") = some (.num so.pnl) := by
    rw [orderWire, get?_object]
    rfl
  have hresult : (orderWire so).get? (Json.ofString "result") = some (text (resultText so.result)) := by
    rw [orderWire, get?_object]
    rfl
  have hword : ∀ word, Relay.resultIs word (orderWire so) = decide (resultText so.result = word) := by
    intro word
    rw [Relay.resultIs, hresult, text, Bool.eq_iff_iff]
    simp [Json.ofString_inj]
  have hnull : Relay.isNull (orderWire so) = false := rfl
  unfold Relay.addOrder Relay.numberOf
  rw [hpnl, hnull]
  simp only [Bool.false_eq_true, if_false, Option.getD_some, Relay.unprintable, bind, Except.bind, pure, Except.pure, exact,
    Option.map_some, hword]
  cases so.result <;> cases t.net <;> simp [resultText]

theorem tally_wire (settled : List SettledOrder) : ∀ t : Relay.Tally,
    ∃ t', (settled.map orderWire).foldlM (Relay.addOrder (exact ofText ofArray)) t = .ok t' ∧
      t'.net = t.net.map (fun net => net + (settlementTotals settled).net) ∧
      (t'.won : Int) = t.won + (settlementTotals settled).won ∧ (t'.lost : Int) = t.lost + (settlementTotals settled).lost := by
  induction settled with
  | nil =>
    intro t
    refine ⟨t, rfl, ?_, ?_, ?_⟩ <;> simp
  | cons so settled ih =>
    intro t
    obtain ⟨t', hrun, hnet, hwon, hlost⟩ := ih ⟨t.net.map fun net => net + so.pnl,
      if so.result = .won then t.won + 1 else t.won, if so.result = .lost then t.lost + 1 else t.lost⟩
    have hcons : settlementTotals (so :: settled) = delta so + settlementTotals settled := by
      rw [settlementTotals_eq, settlementTotals_eq, List.map_cons, List.sum_cons]
    refine ⟨t', ?_, ?_, ?_, ?_⟩
    · rw [List.map_cons, List.foldlM_cons, addOrder_wire]
      exact hrun
    · rw [hnet, hcons, Option.map_map]
      have hpnl : (delta so).net = so.pnl := by
        unfold delta
        cases so.result <;> rfl
      congr 1
      funext net
      simp only [Function.comp_apply, Totals.add_net, hpnl, add_assoc]
    · rw [hwon, hcons]
      unfold delta
      cases so.result <;> simp [add_assoc]
    · rw [hlost, hcons]
      unfold delta
      cases so.result <;> simp [add_assoc]

/-- The relay adds up the snapshot's own orders. -/
theorem record_snapshot (o : Relay.Outcomes) (snap : Live.PnlSnapshot) :
    Relay.record (exact ofText ofArray) o (snapshotWire snap) = .ok (plus o (settlementTotals snap.settled)) := by
  have hsettled : Relay.settledOf (snapshotWire snap) = snap.settled.map orderWire := by
    have h : (snapshotWire snap).get? (Json.ofString "settled") = some (.arr (snap.settled.map orderWire)) := by
      rw [snapshotWire, get?_object]
      rfl
    rw [Relay.settledOf, h]
  have hnull : Relay.isNull (snapshotWire snap) = false := rfl
  unfold Relay.record
  rw [hsettled, hnull]
  by_cases he : snap.settled = []
  · simp [he, plus]
  · obtain ⟨t, hrun, hnet, hwon, hlost⟩ := tally_wire ofText ofArray snap.settled ⟨some 0, 0, 0⟩
    have hne : (snap.settled.map orderWire).isEmpty = false := by simpa using he
    rw [hne, hrun]
    simp [Relay.Outcomes.add, plus, hnet, hwon, hlost, bind, Except.bind, pure, Except.pure]

/-! ## The system -/

structure Ledgers where
  broker : Live.Broker
  outcomes : Relay.Outcomes
  /-- The snapshots the relay has been handed. -/
  delivered : Nat
  /-- The frames graded. -/
  frames : List Live.Settlement

def startWith (hash : Totals) (outcomes : Relay.Outcomes) : Ledgers := ⟨Live.start hash, outcomes, 0, []⟩

inductive Turn where
  | fill (f : Fill)
  | frame (st : Live.Settlement)
  | settle
  | deliver

def deliver (s : Ledgers) : Ledgers :=
  match s.broker.published[s.delivered]? with
  | none => s
  | some snap =>
    match Relay.record (exact ofText ofArray) s.outcomes (snapshotWire snap) with
    | .ok o => { s with outcomes := o, delivered := s.delivered + 1 }
    | .error _ => { s with delivered := s.delivered + 1 }

def turn (s : Ledgers) : Turn → Ledgers
  | .fill f => { s with broker := Live.step s.broker (.fill f) }
  | .frame st =>
    { s with broker := Live.step s.broker (.frame st)
             frames := if s.broker.loop = .idle then s.frames ++ [st] else s.frames }
  | .settle => { s with broker := Live.step s.broker (.settle true) }
  | .deliver => deliver ofText ofArray s

def play (s : Ledgers) (ts : List Turn) : Ledgers := ts.foldl (turn ofText ofArray) s

/-! ## The totals -/

def frameTotals (st : Live.Settlement) : Totals := settlementTotals (Live.settledOf st)

def graded (s : Ledgers) : Totals := (s.frames.map frameTotals).sum

/-- What the loop has still to add to the hash. -/
def unpaid : Live.Phase → Totals
  | .idle => 0
  | .publish snap => settlementTotals snap.settled
  | .persist snap => settlementTotals snap.settled
  | .forget _ => 0

/-- What it has still to publish. -/
def unsaid : Live.Phase → List Totals
  | .idle => []
  | .publish snap => [settlementTotals snap.settled]
  | .persist _ => []
  | .forget _ => []

def said (s : Ledgers) : List Totals := s.broker.published.map fun snap => settlementTotals snap.settled

structure Agree (hash : Totals) (outcomes : Relay.Outcomes) (s : Ledgers) : Prop where
  session : s.broker.session = graded s
  hash : s.broker.hash + unpaid s.broker.loop = hash + graded s
  published : said s ++ unsaid s.broker.loop = s.frames.map frameTotals
  heard : s.delivered ≤ s.broker.published.length
  outcomes : s.outcomes = plus outcomes ((said s).take s.delivered).sum

theorem deliver_agree {hash : Totals} {outcomes : Relay.Outcomes} {s : Ledgers} (h : Agree hash outcomes s) :
    Agree hash outcomes (deliver ofText ofArray s) := by
  unfold deliver
  split
  · exact h
  · rename_i snap hsnap
    obtain ⟨hlt, hget⟩ := List.getElem?_eq_some_iff.mp hsnap
    rw [record_snapshot]
    refine ⟨h.session, h.hash, h.published, hlt, ?_⟩
    have htake : (said s).take (s.delivered + 1) = (said s).take s.delivered ++ [settlementTotals snap.settled] := by
      rw [said, ← List.map_take, ← List.map_take, List.take_succ_eq_append_getElem hlt, List.map_append, hget]
      rfl
    show plus s.outcomes _ = plus outcomes ((said s).take (s.delivered + 1)).sum
    rw [htake, List.sum_append, List.sum_singleton, h.outcomes]
    simp [plus, add_assoc]

theorem frame_agree {hash : Totals} {outcomes : Relay.Outcomes} {s : Ledgers} (h : Agree hash outcomes s)
    (st : Live.Settlement) : Agree hash outcomes (turn ofText ofArray s (.frame st)) := by
  have hpaid := h.hash
  have hpub := h.published
  cases hl : s.broker.loop with
  | idle =>
    rw [hl] at hpaid hpub
    have hg : graded { s with frames := s.frames ++ [st] } = graded s + frameTotals st := by simp [graded]
    have hstep : Live.step s.broker (.frame st) = Live.grade s.broker st := by simp only [Live.step, hl]
    simp only [turn, hl, if_true, hstep]
    refine ⟨?_, ?_, ?_, h.heard, h.outcomes⟩
    · show s.broker.session + frameTotals st = graded { s with frames := s.frames ++ [st] }
      rw [hg, h.session]
    · show s.broker.hash + frameTotals st = hash + graded { s with frames := s.frames ++ [st] }
      rw [hg, ← add_assoc, ← hpaid, unpaid, add_zero]
    · show said s ++ [frameTotals st] = (s.frames ++ [st]).map frameTotals
      rw [List.map_append, ← hpub, unsaid, List.append_nil]
      rfl
  | publish snap => simpa [turn, Live.step, hl] using h
  | persist snap => simpa [turn, Live.step, hl] using h
  | forget snap => simpa [turn, Live.step, hl] using h

theorem publish_agree {hash : Totals} {outcomes : Relay.Outcomes} {s : Ledgers} (h : Agree hash outcomes s)
    {snap : Live.PnlSnapshot} (hl : s.broker.loop = .publish snap) :
    Agree hash outcomes
      { s with broker := { s.broker with published := s.broker.published ++ [snap], loop := .persist snap } } := by
  have hpaid := h.hash
  have hpub := h.published
  rw [hl] at hpaid hpub
  refine ⟨h.session, hpaid, ?_, ?_, ?_⟩
  · show (s.broker.published ++ [snap]).map _ ++ [] = s.frames.map frameTotals
    rw [List.append_nil, List.map_append, ← hpub]
    rfl
  · show s.delivered ≤ (s.broker.published ++ [snap]).length
    have := h.heard
    rw [List.length_append]
    omega
  · have hle : s.delivered ≤ (said s).length := by
      rw [said, List.length_map]
      exact h.heard
    show s.outcomes = plus outcomes (((s.broker.published ++ [snap]).map _).take s.delivered).sum
    rw [List.map_append]
    show s.outcomes = plus outcomes ((said s ++ _).take s.delivered).sum
    rw [List.take_append_of_le_length hle]
    exact h.outcomes

/-- An empty snapshot is not persisted, and owes nothing. -/
theorem persist_agree {hash : Totals} {outcomes : Relay.Outcomes} {s : Ledgers} (h : Agree hash outcomes s)
    {snap : Live.PnlSnapshot} (hl : s.broker.loop = .persist snap) :
    Agree hash outcomes
      { s with broker := { Live.persistSession s.broker snap true with loop := .forget snap } } := by
  have hpaid := h.hash
  have hpub := h.published
  rw [hl] at hpaid hpub
  unfold Live.persistSession
  by_cases he : snap.settled.isEmpty = true
  · have hzero : settlementTotals snap.settled = 0 := by
      rw [List.isEmpty_iff.mp he]
      rfl
    rw [if_pos (by simp [he])]
    refine ⟨h.session, ?_, hpub, h.heard, h.outcomes⟩
    rw [unpaid, hzero] at hpaid
    exact hpaid
  · rw [if_neg (by simp [he])]
    refine ⟨h.session, ?_, hpub, h.heard, h.outcomes⟩
    show s.broker.hash + settlementTotals snap.settled + 0 = _
    rw [add_zero]
    exact hpaid

theorem settle_agree {hash : Totals} {outcomes : Relay.Outcomes} {s : Ledgers} (h : Agree hash outcomes s) :
    Agree hash outcomes (turn ofText ofArray s .settle) := by
  cases hl : s.broker.loop with
  | idle => simpa [turn, Live.step, hl] using h
  | publish snap =>
    simp only [turn, Live.step, hl, if_true]
    exact publish_agree h hl
  | persist snap =>
    simp only [turn, Live.step, hl]
    exact persist_agree h hl
  | forget snap =>
    have hpaid := h.hash
    have hpub := h.published
    rw [hl] at hpaid hpub
    simp only [turn, Live.step, hl]
    exact ⟨h.session, hpaid, hpub, h.heard, h.outcomes⟩

theorem turn_agree {hash : Totals} {outcomes : Relay.Outcomes} {s : Ledgers} (h : Agree hash outcomes s) (t : Turn) :
    Agree hash outcomes (turn ofText ofArray s t) := by
  cases t with
  | fill f => exact ⟨h.session, h.hash, h.published, h.heard, h.outcomes⟩
  | frame st => exact frame_agree ofText ofArray h st
  | settle => exact settle_agree ofText ofArray h
  | deliver => exact deliver_agree ofText ofArray h

theorem play_agree (hash : Totals) (outcomes : Relay.Outcomes) (ts : List Turn) :
    Agree hash outcomes (play ofText ofArray (startWith hash outcomes) ts) := by
  refine fold_inv (Agree hash outcomes) (fun s t h => turn_agree ofText ofArray h t) ts ⟨rfl, rfl, rfl, Nat.le_refl _, ?_⟩
  simp [plus, said, startWith, Live.start]

/-- The loop waits for a frame and the relay has been handed every snapshot. -/
def CaughtUp (s : Ledgers) : Prop := s.broker.loop = .idle ∧ s.delivered = s.broker.published.length

/-- Session, hash and ledger show the same frames, and every order is counted. -/
theorem accumulators_agree (hash : Totals) (outcomes : Relay.Outcomes) (ts : List Turn)
    (h : CaughtUp (play ofText ofArray (startWith hash outcomes) ts)) :
    let s := play ofText ofArray (startWith hash outcomes) ts
    s.broker.session = (s.frames.map frameTotals).sum ∧
    s.broker.hash = hash + (s.frames.map frameTotals).sum ∧
    s.outcomes = plus outcomes (s.frames.map frameTotals).sum ∧
    ∀ st ∈ s.frames, (frameTotals st).won + (frameTotals st).lost + (frameTotals st).void = st.orders.length := by
  have ha := play_agree ofText ofArray hash outcomes ts
  obtain ⟨hidle, hall⟩ := h
  have hpaid := ha.hash
  have hpub := ha.published
  have hout := ha.outcomes
  rw [hidle] at hpaid hpub
  refine ⟨ha.session, ?_, ?_, ?_⟩
  · rw [unpaid, add_zero] at hpaid
    exact hpaid
  · rw [unsaid, List.append_nil] at hpub
    have hlen : (said (play ofText ofArray (startWith hash outcomes) ts)).length =
        (play ofText ofArray (startWith hash outcomes) ts).delivered := by rw [said, List.length_map, hall]
    rw [hout, List.take_of_length_le (Nat.le_of_eq hlen), hpub]
  · intro st _
    have hlen : (Live.settledOf st).length = st.orders.length := by
      rw [Live.settledOf, settleOrders, List.length_map]
    rw [frameTotals, settlementTotals_count, hlen]

/-! ## One frame after the other -/

/-- A frame, its three Redis commands and its snapshot's delivery. -/
def handled (st : Live.Settlement) : List Turn := [.frame st, .settle, .settle, .settle, .deliver]

theorem handled_caughtUp {s : Ledgers} (h : CaughtUp s) (st : Live.Settlement) :
    CaughtUp (play ofText ofArray s (handled st)) ∧ (play ofText ofArray s (handled st)).frames = s.frames ++ [st] := by
  obtain ⟨hl, hd⟩ := h
  have hlast : ∀ snap, (s.broker.published ++ [snap])[s.broker.published.length]? = some snap := fun snap => by simp
  simp only [play, handled, List.foldl_cons, List.foldl_nil, turn, Live.step, hl, Live.grade, if_true, deliver,
    Live.persistSession_published, hd, hlast, record_snapshot]
  exact ⟨⟨rfl, by simp⟩, trivial⟩

/-- Frames handled one after the other: the three agree after each. -/
theorem frames_caughtUp (frames : List Live.Settlement) : ∀ {s : Ledgers}, CaughtUp s →
    CaughtUp (play ofText ofArray s (frames.flatMap handled)) ∧
      (play ofText ofArray s (frames.flatMap handled)).frames = s.frames ++ frames := by
  induction frames with
  | nil => intro s h; exact ⟨h, (List.append_nil _).symm⟩
  | cons st frames ih =>
    intro s h
    obtain ⟨h1, hf1⟩ := handled_caughtUp ofText ofArray h st
    obtain ⟨h2, hf2⟩ := ih h1
    have hsplit : play ofText ofArray s ((st :: frames).flatMap handled) =
        play ofText ofArray (play ofText ofArray s (handled st)) (frames.flatMap handled) := by
      rw [List.flatMap_cons, play, List.foldl_append]
      rfl
    rw [hsplit]
    refine ⟨h2, ?_⟩
    rw [hf2, hf1, List.append_assoc]
    rfl

end

/-- A win, a loss and a void, then a frame that nobody verified. -/
def twoFrames : List Live.Settlement :=
  [⟨1, "m1", ⟨1, 0⟩, [⟨"M1", "1X2", "home", 3, 10⟩, ⟨"M2", "1X2", "away", 5, 4⟩, ⟨"M3", "OU", "over", 2, 7⟩], "redis", true⟩,
   ⟨2, "m2", ⟨0, 0⟩, [⟨"M4", "1X2", "draw", 8, 1⟩], "", false⟩]

theorem two_frames_agree :
    let s := play (fun _ => none) (fun _ => none) (startWith 0 ⟨0, 0, 0⟩) (twoFrames.flatMap handled)
    s.broker.session = ⟨16, 1, 1, 2⟩ ∧ s.broker.hash = ⟨16, 1, 1, 2⟩ ∧ s.outcomes = ⟨16, 1, 1⟩ := by
  obtain ⟨hup, hframes⟩ := @frames_caughtUp (fun _ => none) (fun _ => none) twoFrames
    (startWith 0 ⟨0, 0, 0⟩) ⟨rfl, rfl⟩
  obtain ⟨hsession, hhash, houtcomes, -⟩ := accumulators_agree (fun _ => none) (fun _ => none) 0 ⟨0, 0, 0⟩ _ hup
  have hsum : (twoFrames.map frameTotals).sum = ⟨16, 1, 1, 2⟩ := by decide +kernel
  rw [hframes] at hsession hhash houtcomes
  refine ⟨hsession.trans hsum, ?_, ?_⟩
  · rw [hhash]
    exact (zero_add _).trans hsum
  · rw [houtcomes]
    show plus ⟨0, 0, 0⟩ (twoFrames.map frameTotals).sum = _
    rw [hsum]
    decide +kernel

end CasuyaLive.System
