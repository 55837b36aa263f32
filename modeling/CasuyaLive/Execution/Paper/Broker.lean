/-
  CasuyaLive.Execution.Paper.Broker — the paper broker's goroutines over one Redis
  (execution-engine-go, internal/broker/interfaces.go: `ExecuteEnvelope`, `PaperRunLoop`,
  `sweepStale`, `persistSession`, `recordSettlements`, `publishPaperSnapshot`).

  A schedule is a list of actions. Each action is one Redis command (a transaction is one)
  or one section under the mutex, all of them succeeding, so every interleaving is some
  schedule. `frame` hands the run loop its next message when it waits for one; `loop` and
  `sweep` let that goroutine take its next step, at the clock reading `now`. An action its
  goroutine cannot take leaves the state alone.

  A batch goes through its stages in order: number it, add it to the session, the
  transaction on the PnL hash, the ledger entries one XADD at a time, the snapshot, its
  publication, and the HDEL. MAXLEN is left out here: it drops the oldest entries and no
  function below reads the ledger.

  `credited` is not in the source: the settled orders whose deltas the transactions added,
  in order. `hash_counts`: the hash is what it was plus their totals.
-/

import CasuyaLive.Lib.Run
import CasuyaLive.Execution.Paper.Store

namespace CasuyaLive.Execution.Paper

open CasuyaLive.Lib

structure Snapshot where
  cycle : Nat
  matchID : String
  home : Float64
  away : Float64
  settled : List SettledOrder
  session : Totals

inductive Stage where
  | count
  | session
  | tx
  | adds (rest : List Entry)
  | snapshot
  | publish (snap : Snapshot)
  | hdel

structure Work where
  batch : Batch
  cycle : Nat
  stage : Stage

inductive Sweep where
  | idle
  /-- HGETALL answered; one match hash is read for each fill of `rest`. -/
  | scanning (rest stale : List (String × Fill))
  | settling (rest : List (String × Fill))
  | working (rest : List (String × Fill)) (w : Work)

structure Broker where
  pending : Orders
  metas : Table String MatchMeta
  hash : Totals
  updatedCycle : Nat
  ledger : List Entry
  session : Totals
  cycle : Nat
  published : List Snapshot
  credited : List SettledOrder
  loop : Option Work
  sweep : Sweep

/-- A broker that has just started on what Redis holds. -/
def start (pending : Orders) (metas : Table String MatchMeta) (hash : Totals) : Broker :=
  { pending := pending, metas := metas, hash := hash, updatedCycle := 0, ledger := [], session := 0, cycle := 0
    published := [], credited := [], loop := none, sweep := .idle }

def started (b : Batch) : Work := ⟨b, 0, .count⟩

/-- The next step of a batch; `none` when it is done. -/
def advance (now : Int) (s : Broker) (w : Work) : Broker × Option Work :=
  match w.stage with
  | .count => ({ s with cycle := s.cycle + 1 }, some { w with cycle := s.cycle + 1, stage := .session })
  | .session => ({ s with session := s.session + w.batch.totals }, some { w with stage := .tx })
  | .tx =>
    ({ s with hash := s.hash + w.batch.totals, updatedCycle := w.cycle, credited := s.credited ++ w.batch.settled },
      some { w with stage := .adds (w.batch.entries now) })
  | .adds (e :: rest) => ({ s with ledger := s.ledger ++ [e] }, some { w with stage := .adds rest })
  | .adds [] => (s, some { w with stage := .snapshot })
  | .snapshot =>
    (s, some { w with stage := .publish ⟨w.cycle, w.batch.matchID, w.batch.home.toInt, w.batch.away.toInt, w.batch.settled, s.session⟩ })
  | .publish snap => ({ s with published := s.published ++ [snap] }, some { w with stage := .hdel })
  | .hdel => ({ s with pending := s.pending.remove w.batch.ids }, none)

def metaOf (s : Broker) (matchID : String) : MatchMeta := (s.metas.get? matchID).getD noMeta

inductive Action where
  | execute (now : Int) (p : Payload)
  | putMeta (matchID : String) (m : MatchMeta)
  | frame (f : Frame)
  | loop (now : Int)
  | sweep (now : Int)

def stepSweep (now : Int) (s : Broker) : Broker :=
  match s.sweep with
  | .idle =>
    if s.pending.table.entries.isEmpty then s
    else { s with sweep := .scanning (s.pending.fills.filter (·.2.matchID != "")) [] }
  | .scanning [] [] => { s with sweep := .idle }
  | .scanning [] stale => { s with sweep := .settling stale }
  | .scanning (x :: rest) stale =>
    { s with sweep := .scanning rest (if isStale now (metaOf s x.2.matchID) then stale ++ [x] else stale) }
  | .settling [] => { s with sweep := .idle }
  | .settling (x :: rest) => { s with sweep := .working rest (started (sweepBatch x (metaOf s x.2.matchID))) }
  | .working rest w =>
    let (s, w') := advance now s w
    match w' with
    | some w' => { s with sweep := .working rest w' }
    | none => { s with sweep := .settling rest }

def step (s : Broker) : Action → Broker
  | .execute now p =>
    match placeOrder now p with
    | none => s
    | some f => { s with pending := s.pending.insert f }
  | .putMeta matchID m => { s with metas := s.metas.set matchID m }
  | .frame f =>
    match s.loop with
    | some _ => s
    | none => { s with loop := (feedBatch s.pending f).map started }
  | .loop now =>
    match s.loop with
    | none => s
    | some w =>
      let (s, w') := advance now s w
      { s with loop := w' }
  | .sweep now => stepSweep now s

def run (s : Broker) (as : List Action) : Broker := as.foldl step s

/-! ## Pending orders -/

theorem remove_pending {o : Orders} {ids : List String} {id : String} {f : Fill}
    (h : (o.remove ids).table.get? id = some (some f)) : o.table.get? id = some (some f) := by
  simp only [Orders.remove, Table.get?_eraseAll] at h
  split at h
  · cases h
  · exact h

/-- The stages of a batch delete orders and place none. -/
theorem advance_pending {now : Int} {s : Broker} {w : Work} {id : String} {f : Fill}
    (h : (advance now s w).1.pending.table.get? id = some (some f)) : s.pending.table.get? id = some (some f) := by
  unfold advance at h
  cases hw : w.stage with
  | hdel =>
    rw [hw] at h
    exact remove_pending h
  | adds rest =>
    rw [hw] at h
    cases rest <;> exact h
  | _ =>
    rw [hw] at h
    exact h

theorem loop_pending {s : Broker} {now : Int} {id : String} {f : Fill}
    (h : (step s (.loop now)).pending.table.get? id = some (some f)) : s.pending.table.get? id = some (some f) := by
  simp only [step] at h
  split at h
  · exact h
  · exact advance_pending h

/-! ## The hash -/

theorem advance_hash (now : Int) (s : Broker) (w : Work) :
    (advance now s w).1.hash - settlementTotals (advance now s w).1.credited = s.hash - settlementTotals s.credited := by
  unfold advance
  cases w.stage with
  | tx => simp only [settlementTotals_append, Batch.totals]; abel
  | adds rest => cases rest <;> rfl
  | _ => rfl

theorem stepSweep_hash (now : Int) (s : Broker) :
    (stepSweep now s).hash - settlementTotals (stepSweep now s).credited = s.hash - settlementTotals s.credited := by
  unfold stepSweep
  split
  · split <;> rfl
  · rfl
  · rfl
  · rfl
  · rfl
  · rfl
  · rename_i rest w _
    have h := advance_hash now s w
    simp only
    split <;> exact h

theorem step_hash (s : Broker) (a : Action) :
    (step s a).hash - settlementTotals (step s a).credited = s.hash - settlementTotals s.credited := by
  cases a with
  | execute now p =>
    simp only [step]
    split <;> rfl
  | putMeta matchID m => rfl
  | frame f =>
    simp only [step]
    split <;> rfl
  | loop now =>
    simp only [step]
    split
    · rfl
    · exact advance_hash now s _
  | sweep now => exact stepSweep_hash now s

/-- The hash has grown by the totals of the credited orders. -/
theorem hash_counts {s : Broker} (h : s.credited = []) (as : List Action) :
    (run s as).hash = s.hash + settlementTotals (run s as).credited := by
  have hI := fold_inv (fun t : Broker => t.hash - settlementTotals t.credited = s.hash) (fun t a ht => (step_hash t a).trans ht)
    as (s := s) (by rw [h, settlementTotals_nil, sub_zero])
  rw [← hI]
  exact (sub_add_cancel _ _).symm

end CasuyaLive.Execution.Paper
