/-
  CasuyaLive.Execution.Paper.Store — what the paper broker keeps in Redis and the batches it
  grades (execution-engine-go, internal/broker/interfaces.go: `PlaceOrder`,
  `PaperRunLoop`, `sweepStale`, `recordSettlements`).

  `Orders` is the hash `execution:paper_orders`. Only `ExecuteEnvelope` writes it, under the
  fill's own id; the field `key` makes a fill under another id impossible to build. An
  entry that does not decode is `none`. Go ranges over the hash in no fixed order; here it
  goes in table order.
-/

import CasuyaLive.Lib.Table
import CasuyaLive.Lib.Calendar
import CasuyaLive.Lib.Text
import CasuyaLive.Execution.Settle

namespace CasuyaLive.Execution.Paper

open CasuyaLive.Lib

structure Orders where
  table : Table String (Option Fill)
  key : ∀ id f, table.get? id = some (some f) → f.orderID = id

namespace Orders

def empty : Orders := ⟨Table.empty, by intro id f h; simp at h⟩

/-- HSET of one fill. -/
def insert (o : Orders) (f : Fill) : Orders :=
  ⟨o.table.set f.orderID (some f), by
    intro id g h
    rw [Table.get?_set] at h
    split at h
    · rename_i e
      simp only [Option.some.injEq] at h
      rw [e, h]
    · exact o.key id g h⟩

/-- HDEL of several ids. -/
def remove (o : Orders) (ids : List String) : Orders :=
  ⟨o.table.eraseAll ids, by
    intro id g h
    rw [Table.get?_eraseAll] at h
    split at h
    · cases h
    · exact o.key id g h⟩

/-- The fills that decode, with their ids, as HGETALL lists them. -/
def fills (o : Orders) : List (String × Fill) := o.table.entries.filterMap fun x => x.2.map fun f => (x.1, f)

def ids (o : Orders) : List String := o.fills.map (·.1)

theorem mem_fills (o : Orders) (id : String) (f : Fill) : (id, f) ∈ o.fills ↔ o.table.get? id = some (some f) := by
  rw [fills, List.mem_filterMap, ← Table.mem_iff]
  constructor
  · intro hx
    rcases hx with ⟨⟨k, v⟩, hm, hv⟩
    rw [Option.map_eq_some_iff] at hv
    obtain ⟨g, rfl, hg⟩ := hv
    cases hg
    exact hm
  · intro h
    exact ⟨(id, some f), h, rfl⟩

theorem fills_key (o : Orders) {x : String × Fill} (h : x ∈ o.fills) : x.2.orderID = x.1 :=
  o.key x.1 x.2 ((o.mem_fills x.1 x.2).mp h)

theorem ids_sublist (o : Orders) : o.ids.Sublist o.table.keys := by
  unfold ids fills Table.keys
  induction o.table.entries with
  | nil => exact List.Sublist.slnil
  | cons x l ih =>
    cases hx : x.2 with
    | none =>
      rw [List.filterMap_cons_none (by simp [hx]), List.map_cons]
      exact ih.cons _
    | some f =>
      rw [List.filterMap_cons_some (b := (x.1, f)) (by simp [hx]), List.map_cons, List.map_cons]
      exact ih.cons_cons _

theorem ids_nodup (o : Orders) : o.ids.Nodup := o.ids_sublist.nodup o.table.nodup

theorem mem_ids (o : Orders) (id : String) : id ∈ o.ids ↔ ∃ f, o.table.get? id = some (some f) := by
  rw [ids, List.mem_map]
  constructor
  · intro hx
    rcases hx with ⟨⟨k, f⟩, hm, rfl⟩
    exact ⟨f, (o.mem_fills k f).mp hm⟩
  · intro hx
    rcases hx with ⟨f, hf⟩
    exact ⟨(id, f), (o.mem_fills id f).mpr hf, rfl⟩

theorem mem_ids_insert (o : Orders) (f : Fill) (id : String) : id ∈ (o.insert f).ids ↔ id = f.orderID ∨ id ∈ o.ids := by
  rw [mem_ids, mem_ids, insert]
  simp only [Table.get?_set]
  by_cases h : id = f.orderID <;> simp [h]

theorem mem_ids_remove (o : Orders) (ks : List String) (id : String) : id ∈ (o.remove ks).ids ↔ id ∈ o.ids ∧ id ∉ ks := by
  rw [mem_ids, mem_ids, remove]
  simp only [Table.get?_eraseAll]
  by_cases h : id ∈ ks <;> simp [h]

end Orders

/-- The fields of a match hash as `ParseInt` and `ParseFloat` read them, 0 when absent. -/
structure MatchMeta where
  kickoff : Int
  receivedAt : Int
  clock : String
  scoreHome : Float64
  scoreAway : Float64
  deriving DecidableEq

def noMeta : MatchMeta := ⟨0, 0, "", 0, 0⟩

/-- One entry of the settlement ledger. -/
structure Entry extends SettledOrder where
  matchID : String
  scoreHome : Float64
  scoreAway : Float64
  settledAt : Int
  deriving DecidableEq

/-- The graded orders of one settlement, and the ids to delete when it is done. -/
structure Batch where
  matchID : String
  home : Float64
  away : Float64
  settled : List SettledOrder
  ids : List String

def Batch.totals (b : Batch) : Totals := settlementTotals b.settled

/-- The entries `recordSettlements` appends. -/
def Batch.entries (b : Batch) (now : Int) : List Entry :=
  b.settled.map fun so => { so with matchID := b.matchID, scoreHome := b.home, scoreAway := b.away, settledAt := now / 1000000 }

/-! ## Placing orders -/

structure Payload where
  matchID : String
  marketID : String
  side : String
  odds : ℚ
  amount : ℚ

def slippage : ℚ := 5 / 1000

def placeOrder (now : Int) (p : Payload) : Option Fill :=
  if p.amount ≤ 0 then none
  else some
    { orderID := "paper_" ++ Text.itoa now
      market := p.marketID
      side := p.side
      odds := p.odds - p.odds * slippage
      stake := p.amount
      matchID := p.matchID
      fillAt := now }

/-! ## Grading -/

structure Frame where
  clock : String
  matchID : String
  score : Option (Int × Int)

/-- A fill of the finished match, or of no match at all. -/
def ofMatch (matchID : String) (x : String × Fill) : Bool := x.2.matchID == "" || x.2.matchID == matchID

/-- The batch of one FULLTIME frame, over what HGETALL answered. -/
def feedBatch (o : Orders) (f : Frame) : Option Batch :=
  if f.clock ≠ "FULLTIME" then none
  else
    match f.score with
    | none => none
    | some (home, away) =>
      let picked := o.fills.filter (ofMatch f.matchID)
      if picked.isEmpty then none
      else some
        { matchID := f.matchID
          home := home
          away := away
          settled := settleOrders (picked.map (·.2.order)) home away "feed_ft" true
          ids := picked.map (·.1) }

def staleAfter : Int := 180 * 60 * 1000000000

/-- 180 minutes past the kickoff, or past the last frame. -/
def isStale (now : Int) (m : MatchMeta) : Bool :=
  (0 < m.kickoff && staleAfter < now - Calendar.timeUnix m.kickoff * 1000000000) ||
    (0 < m.receivedAt && staleAfter < now - m.receivedAt * 1000000)

/-- The batch of one stale order: graded only against a recorded FULLTIME. -/
def sweepBatch (x : String × Fill) (m : MatchMeta) : Batch :=
  { matchID := x.2.matchID
    home := m.scoreHome
    away := m.scoreAway
    settled := settleOrders [x.2.order] m.scoreHome m.scoreAway "stale_sweep" (m.clock == "FULLTIME")
    ids := [x.1] }

/-- A batch deletes exactly the orders it grades. -/
def Batch.Keyed (b : Batch) : Prop := b.settled.map (·.orderID) = b.ids

theorem entries_ids (b : Batch) (now : Int) : (b.entries now).map (·.orderID) = b.settled.map (·.orderID) := by
  simp only [Batch.entries, List.map_map]
  rfl

theorem feedBatch_spec {o : Orders} {f : Frame} {b : Batch} (h : feedBatch o f = some b) :
    b.Keyed ∧ b.ids.Nodup ∧ b.ids ≠ [] ∧ ∀ id ∈ b.ids, id ∈ o.ids := by
  unfold feedBatch at h
  split at h
  · cases h
  · split at h
    · cases h
    · simp only at h
      split at h
      · cases h
      · rename_i home away _ hne
        simp only [Option.some.injEq] at h
        subst h
        have hsub : (o.fills.filter (ofMatch f.matchID)).Sublist o.fills := List.filter_sublist
        refine ⟨?_, ?_, ?_, ?_⟩
        · simp only [Batch.Keyed, settleOrders_ids, List.map_map]
          exact List.map_congr_left fun x hx => o.fills_key (hsub.subset hx)
        · exact (hsub.map _).nodup o.ids_nodup
        · intro e
          apply hne
          simpa using e
        · intro id hid
          exact (hsub.map (·.1)).subset hid

/-- What a frame grades: the pending fills of its match, or of none. -/
theorem feedBatch_picked {o : Orders} {f : Frame} {b : Batch} (h : feedBatch o f = some b) :
    f.clock = "FULLTIME" ∧ f.score.isSome = true ∧
      ∀ id ∈ b.ids, ∃ fill, o.table.get? id = some (some fill) ∧ ofMatch f.matchID (id, fill) = true := by
  unfold feedBatch at h
  split at h
  · cases h
  · rename_i hclock
    split at h
    · cases h
    · rename_i hscore
      simp only at h
      split at h
      · cases h
      · simp only [Option.some.injEq] at h
        subst h
        refine ⟨Decidable.not_not.mp hclock, by rw [hscore]; rfl, ?_⟩
        intro id hid
        obtain ⟨⟨id', fill⟩, hx, rfl⟩ := List.mem_map.mp hid
        rw [List.mem_filter] at hx
        exact ⟨fill, (o.mem_fills id' fill).mp hx.1, hx.2⟩

theorem sweepBatch_spec {x : String × Fill} (h : x.2.orderID = x.1) (m : MatchMeta) :
    (sweepBatch x m).Keyed ∧ (sweepBatch x m).ids = [x.1] := by
  refine ⟨?_, rfl⟩
  simp only [Batch.Keyed, sweepBatch, settleOrders_ids, List.map_cons, List.map_nil]
  rw [← h]
  rfl

end CasuyaLive.Execution.Paper
