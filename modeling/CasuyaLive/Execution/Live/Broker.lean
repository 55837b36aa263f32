/-
  CasuyaLive.Execution.Live.Broker — the live broker's order book and its settlement loop
  (execution-engine-go, internal/broker/client.go: `recordFill`, `settleLoop`, `grade`,
  `forget`, `persistSession`).

  A schedule is a list of actions. `fill` is the end of a PlaceOrder; `frame` hands the
  settlement loop its next frame when it waits for one, and grades it under the mutex;
  `settle` lets the loop take its next step: the publication of the snapshot, the
  transaction on the PnL hash (which may fail), and the `forget`.

  `Positions` holds the confirmed orders, at most 500 of them; the field `inOrder` makes a
  sequence that is not the keys of the map impossible to build.

  Not in the source: `recorded`, the ids whose `recordFill` has run; `graded` and `credited`,
  the settled orders whose totals the session and the hash received; `forgotten`, the ids of
  the frames done with. `accounts`: the session and the hash are the totals of theirs.
-/

import CasuyaLive.Lib.Run
import CasuyaLive.Lib.Table
import CasuyaLive.Execution.Settle

namespace CasuyaLive.Execution.Live

open CasuyaLive.Lib

structure Score where
  home : ℚ
  away : ℚ
  deriving DecidableEq

/-- The fills of a match, to be graded against its final score. -/
structure Settlement where
  cycle : Int
  matchID : String
  finalScore : Score
  orders : List SettlementOrder
  source : String
  verified : Bool
  deriving DecidableEq

structure PnlSnapshot where
  cycle : Int
  matchID : String
  finalScore : Score
  settled : List SettledOrder
  session : Totals
  deriving DecidableEq

/-! ## Positions -/

def maxPositions : Nat := 500

structure Positions where
  fills : Table String Fill
  orderSeq : List String
  inOrder : orderSeq = fills.keys

namespace Positions

def empty : Positions := ⟨Table.empty, [], rfl⟩

/-- The order goes from the map and from the sequence. -/
def remove (p : Positions) (id : String) : Positions :=
  ⟨p.fills.erase id, p.orderSeq.erase id, by
    rw [Table.keys_erase, p.inOrder]
    exact List.Nodup.erase_eq_filter p.fills.nodup id⟩

/-- At the limit the oldest order goes. -/
def makeRoom (p : Positions) : Positions :=
  if p.orderSeq.length < maxPositions then p
  else
    match p.orderSeq.head? with
    | none => p
    | some oldest => p.remove oldest

theorem remove_absent {p : Positions} {id : String} (h : p.fills.get? id = none) (other : String) :
    (p.remove other).fills.get? id = none := by
  simp only [remove, Table.get?_erase]
  split
  · rfl
  · exact h

theorem makeRoom_cases (p : Positions) :
    (p.orderSeq.length < maxPositions ∧ p.makeRoom = p) ∨
    (maxPositions ≤ p.orderSeq.length ∧
      ∃ oldest, p.orderSeq = oldest :: p.makeRoom.orderSeq ∧ p.makeRoom = p.remove oldest) := by
  unfold makeRoom
  split
  · exact Or.inl ⟨by assumption, rfl⟩
  · rename_i hfull
    refine Or.inr ⟨Nat.not_lt.mp hfull, ?_⟩
    cases hseq : p.orderSeq with
    | nil =>
      rw [hseq] at hfull
      exact absurd (by decide) hfull
    | cons oldest rest => exact ⟨oldest, by simp [remove, hseq], rfl⟩

theorem makeRoom_absent {p : Positions} {id : String} (h : p.fills.get? id = none) : p.makeRoom.fills.get? id = none := by
  rcases p.makeRoom_cases with ⟨-, hsame⟩ | ⟨-, oldest, -, hdropped⟩
  · rw [hsame]
    exact h
  · rw [hdropped]
    exact remove_absent h _

/-- `recordFill`. -/
def record (p : Positions) (f : Fill) : Positions :=
  if h : p.fills.get? f.orderID = none then
    ⟨p.makeRoom.fills.set f.orderID f, p.makeRoom.orderSeq ++ [f.orderID], by
      rw [Table.keys_set_new _ _ (makeRoom_absent h), p.makeRoom.inOrder]⟩
  else p

/-- `forget`. -/
def forget (p : Positions) (settled : List SettledOrder) : Positions := settled.foldl (fun p so => p.remove so.orderID) p

/-- Recording one order brings no other one back. -/
theorem record_absent {p : Positions} {id : String} (h : p.fills.get? id = none) {f : Fill} (hne : id ≠ f.orderID) :
    (p.record f).fills.get? id = none := by
  unfold record
  split
  · simp only [Table.get?_set_ne _ _ hne]
    exact makeRoom_absent h
  · exact h

theorem forget_absent (settled : List SettledOrder) : ∀ {p : Positions} {id : String},
    (p.fills.get? id = none ∨ id ∈ settled.map (·.orderID)) → (p.forget settled).fills.get? id = none := by
  induction settled with
  | nil =>
    intro p id h
    rcases h with h | h
    · exact h
    · cases h
  | cons so settled ih =>
    intro p id h
    apply ih
    rcases h with h | h
    · exact Or.inl (remove_absent h _)
    · rcases List.mem_cons.mp h with rfl | h
      · exact Or.inl (by simp [remove])
      · exact Or.inr h

end Positions

/-! ## The loop -/

inductive Phase where
  | idle
  | publish (snap : PnlSnapshot)
  | persist (snap : PnlSnapshot)
  | forget (snap : PnlSnapshot)
  deriving DecidableEq

structure Broker where
  positions : Positions
  session : Totals
  hash : Totals
  updatedCycle : Int
  published : List PnlSnapshot
  loop : Phase
  recorded : List String
  graded : List SettledOrder
  credited : List SettledOrder
  forgotten : List String

/-- A broker that has just started beside this PnL hash. -/
def start (hash : Totals) : Broker := ⟨Positions.empty, 0, hash, 0, [], .idle, [], [], [], []⟩

def settledOf (st : Settlement) : List SettledOrder :=
  settleOrders st.orders st.finalScore.home st.finalScore.away st.source st.verified

def snapshotOf (st : Settlement) (session : Totals) : PnlSnapshot :=
  ⟨st.cycle, st.matchID, st.finalScore, settledOf st, session⟩

def grade (s : Broker) (st : Settlement) : Broker :=
  let session := s.session + settlementTotals (settledOf st)
  { s with session := session, graded := s.graded ++ settledOf st, loop := .publish (snapshotOf st session) }

/-- The totals of the snapshot's own orders go to the hash; nothing for an empty one. -/
def persistSession (s : Broker) (snap : PnlSnapshot) (ok : Bool) : Broker :=
  if snap.settled.isEmpty || !ok then s
  else
    { s with hash := s.hash + settlementTotals snap.settled, updatedCycle := snap.cycle
             credited := s.credited ++ snap.settled }

@[simp] theorem persistSession_published (s : Broker) (snap : PnlSnapshot) (ok : Bool) :
    (persistSession s snap ok).published = s.published := by
  unfold persistSession
  split <;> rfl

inductive Action where
  | fill (f : Fill)
  | frame (st : Settlement)
  /-- The loop's next step, and whether its Redis command takes effect. -/
  | settle (ok : Bool)

def step (s : Broker) : Action → Broker
  | .fill f => { s with positions := s.positions.record f, recorded := s.recorded ++ [f.orderID] }
  | .frame st =>
    match s.loop with
    | .idle => grade s st
    | .publish _ => s
    | .persist _ => s
    | .forget _ => s
  | .settle ok =>
    match s.loop with
    | .idle => s
    | .publish snap => { s with published := if ok then s.published ++ [snap] else s.published, loop := .persist snap }
    | .persist snap => { persistSession s snap ok with loop := .forget snap }
    | .forget snap =>
      { s with positions := s.positions.forget snap.settled, loop := .idle
               forgotten := s.forgotten ++ snap.settled.map (·.orderID) }

def run (s : Broker) (as : List Action) : Broker := as.foldl step s

/-! ## The accounts -/

/-- The session and the hash are the totals of what they received. -/
structure Accounts (hash : Totals) (s : Broker) : Prop where
  session : s.session = settlementTotals s.graded
  hash : s.hash = hash + settlementTotals s.credited

theorem step_accounts {hash : Totals} {s : Broker} (h : Accounts hash s) (a : Action) : Accounts hash (step s a) := by
  cases a with
  | fill f => exact ⟨h.session, h.hash⟩
  | frame st =>
    simp only [step]
    split
    · refine ⟨?_, h.hash⟩
      show s.session + _ = settlementTotals (s.graded ++ _)
      rw [settlementTotals_append, h.session]
    · exact h
    · exact h
    · exact h
  | settle ok =>
    simp only [step]
    split
    · exact h
    · exact ⟨h.session, h.hash⟩
    · rename_i snap _
      unfold persistSession
      split
      · exact ⟨h.session, h.hash⟩
      · refine ⟨h.session, ?_⟩
        show s.hash + _ = hash + settlementTotals (s.credited ++ _)
        rw [settlementTotals_append, h.hash, add_assoc]
    · exact ⟨h.session, h.hash⟩

theorem accounts (hash : Totals) (as : List Action) : Accounts hash (run (start hash) as) :=
  fold_inv (Accounts hash) (fun _ a h => step_accounts h a) as ⟨rfl, (add_zero hash).symm⟩

end CasuyaLive.Execution.Live
