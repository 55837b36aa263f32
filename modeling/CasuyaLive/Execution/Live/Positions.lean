/-
  CasuyaLive.Execution.Live.Positions — the position store as the source keeps it
  (execution-engine-go, internal/broker/client.go: `recordFill`, `forget`).

  A map and a sequence, updated one beside the other: `recordFill` appends a new id, and at
  500 drops the first of the sequence before; `forget` cuts an id out of the middle. Nothing
  in the type ties the two. From the empty store each call does what it does to a
  `Positions`, whose sequence is the keys of its map (`recordFill_raw`, `forget_raw`).

  `position_store`: in every state that calls lead to, the sequence lists the ids of the map,
  once each, at most 500, by their last insertion; a recorded id stays as it is, and one goes
  only when forgotten or when it is the oldest of 500. `run_stored`: the settlement loop's
  store is always such a state.
-/

import CasuyaLive.Execution.Live.Broker
import CasuyaLive.Lib.Recency

namespace CasuyaLive.Execution.Live

open CasuyaLive.Lib

structure PositionStore where
  positions : Table String Fill
  orderSeq : List String
  deriving DecidableEq

namespace PositionStore

def empty : PositionStore := ⟨Table.empty, []⟩

def has (s : PositionStore) (id : String) : Bool := (s.positions.get? id).isSome

/-- At the limit the first of the sequence goes. -/
def evict (s : PositionStore) : PositionStore :=
  if maxPositions ≤ s.orderSeq.length then
    match s.orderSeq with
    | [] => s
    | oldest :: rest => ⟨s.positions.erase oldest, rest⟩
  else s

def recordFill (s : PositionStore) (f : Fill) : PositionStore :=
  if s.has f.orderID then s
  else ⟨s.evict.positions.set f.orderID f, s.evict.orderSeq ++ [f.orderID]⟩

/-- The sequence without the first place of the id. -/
def cut (seq : List String) (id : String) : List String :=
  match seq.findIdx? (· == id) with
  | none => seq
  | some i => seq.take i ++ seq.drop (i + 1)

/-- The body of `forget`'s loop. -/
def forgetOne (s : PositionStore) (so : SettledOrder) : PositionStore :=
  if s.has so.orderID then ⟨s.positions.erase so.orderID, cut s.orderSeq so.orderID⟩ else s

def forget (s : PositionStore) (settled : List SettledOrder) : PositionStore := settled.foldl forgetOne s

/-! ## Histories -/

inductive Call where
  | recordFill (f : Fill)
  | forget (settled : List SettledOrder)

def step (s : PositionStore) : Call → PositionStore
  | .recordFill f => s.recordFill f
  | .forget settled => s.forget settled

def run (cs : List Call) : PositionStore := cs.foldl step empty

/-- The id that a call inserts. -/
def insertion (s : PositionStore) : Call → List String
  | .recordFill f => if s.has f.orderID then [] else [f.orderID]
  | .forget _ => []

def logged (s : PositionStore) (c : Call) : PositionStore × List String := (s.step c, s.insertion c)

/-- The ids inserted over a history, one entry an insertion. -/
def inserted (cs : List Call) : List String := outputs logged empty cs

/-! ## The store is a `Positions` -/

theorem cut_eq_erase (seq : List String) (id : String) : cut seq id = seq.erase id := by
  rw [cut, List.erase_eq_eraseP', List.eraseP_eq_eraseIdx]
  cases seq.findIdx? (· == id) with
  | none => rfl
  | some i => exact (List.eraseIdx_eq_take_drop_succ seq i).symm

end PositionStore

namespace Positions

open PositionStore

/-- The store without the proof that its parts agree. -/
def raw (p : Positions) : PositionStore := ⟨p.fills, p.orderSeq⟩

@[simp] theorem raw_positions (p : Positions) : p.raw.positions = p.fills := rfl
@[simp] theorem raw_orderSeq (p : Positions) : p.raw.orderSeq = p.orderSeq := rfl

theorem has_iff (p : Positions) (id : String) : p.raw.has id = true ↔ id ∈ p.orderSeq := by
  rw [p.inOrder, Table.mem_keys]
  exact Option.isSome_iff_exists

theorem lacks_iff (p : Positions) (id : String) : p.raw.has id = false ↔ id ∉ p.orderSeq := by
  rw [← p.has_iff, Bool.not_eq_true]

theorem absent_iff (p : Positions) (id : String) : p.fills.get? id = none ↔ p.raw.has id = false := by
  rw [← Option.not_isSome_iff_eq_none, Bool.not_eq_true]
  rfl

theorem nodup (p : Positions) : p.orderSeq.Nodup := by
  rw [p.inOrder]
  exact p.fills.nodup

theorem raw_forgetOne (p : Positions) (so : SettledOrder) : p.raw.forgetOne so = (p.remove so.orderID).raw := by
  unfold forgetOne
  cases hhas : p.raw.has so.orderID with
  | true =>
    rw [if_pos rfl, cut_eq_erase]
    rfl
  | false =>
    have habsent := (p.absent_iff _).mpr hhas
    have hseq := (p.lacks_iff _).mp hhas
    rw [if_neg Bool.false_ne_true]
    simp only [raw, remove, Table.erase_absent habsent, List.erase_of_not_mem hseq]

theorem raw_forget (p : Positions) (settled : List SettledOrder) : p.raw.forget settled = (p.forget settled).raw := by
  induction settled generalizing p with
  | nil => rfl
  | cons so settled ih =>
    have hnext := ih (p.remove so.orderID)
    rw [← raw_forgetOne] at hnext
    exact hnext

theorem raw_evict (p : Positions) : p.raw.evict = p.makeRoom.raw := by
  rw [evict, raw_orderSeq, raw_positions]
  rcases p.makeRoom_cases with ⟨hroom, hsame⟩ | ⟨hfull, oldest, hseq, hdropped⟩
  · rw [if_neg (Nat.not_le.mpr hroom), hsame]
  · have hfills : p.makeRoom.fills = p.fills.erase oldest := congrArg (·.fills) hdropped
    rw [if_pos hfull, hseq]
    show (⟨p.fills.erase oldest, p.makeRoom.orderSeq⟩ : PositionStore) = p.makeRoom.raw
    rw [← hfills]
    rfl

theorem record_old {p : Positions} {f : Fill} (h : p.raw.has f.orderID = true) : p.record f = p := by
  have hthere : ¬ p.fills.get? f.orderID = none := by
    rw [p.absent_iff, h]
    decide
  rw [record, dif_neg hthere]

theorem record_new {p : Positions} {f : Fill} (h : p.raw.has f.orderID = false) :
    (p.record f).raw = ⟨p.makeRoom.fills.set f.orderID f, p.makeRoom.orderSeq ++ [f.orderID]⟩ := by
  rw [record, dif_pos ((p.absent_iff _).mpr h)]
  rfl

/-- A new id goes to the end. -/
theorem record_seq {p : Positions} {f : Fill} (h : p.raw.has f.orderID = false) :
    (p.record f).orderSeq = p.makeRoom.orderSeq ++ [f.orderID] := congrArg (·.orderSeq) (record_new h)

theorem raw_recordFill (p : Positions) (f : Fill) : p.raw.recordFill f = (p.record f).raw := by
  unfold recordFill
  cases hhas : p.raw.has f.orderID with
  | true => rw [if_pos rfl, record_old hhas]
  | false => rw [if_neg Bool.false_ne_true, record_new hhas, raw_evict, raw_positions, raw_orderSeq]

/-! ## What the calls keep -/

/-- At most 500 ids, by their last place in the log. -/
structure Kept (log : List String) (p : Positions) : Prop where
  bounded : p.orderSeq.length ≤ maxPositions
  follows : Follows log p.orderSeq

theorem kept_empty : Kept [] Positions.empty := ⟨Nat.zero_le _, Follows.nil _⟩

theorem Kept.part {log : List String} {p q : Positions} (h : Kept log p) (hpart : q.orderSeq.Sublist p.orderSeq) : Kept log q :=
  ⟨hpart.length_le.trans h.bounded, h.follows.part hpart⟩

theorem makeRoom_part (p : Positions) : p.makeRoom.orderSeq.Sublist p.orderSeq := by
  rcases p.makeRoom_cases with ⟨-, hsame⟩ | ⟨-, oldest, hseq, -⟩
  · rw [hsame]
  · rw [hseq]
    exact List.sublist_cons_self oldest _

theorem forget_part (settled : List SettledOrder) (p : Positions) : (p.forget settled).orderSeq.Sublist p.orderSeq := by
  induction settled generalizing p with
  | nil => exact List.Sublist.refl _
  | cons so settled ih => exact (ih (p.remove so.orderID)).trans List.erase_sublist

theorem makeRoom_room {p : Positions} (h : p.orderSeq.length ≤ maxPositions) : p.makeRoom.orderSeq.length < maxPositions := by
  rcases p.makeRoom_cases with ⟨hroom, hsame⟩ | ⟨-, oldest, hseq, -⟩
  · rw [hsame]
    exact hroom
  · rw [hseq, List.length_cons] at h
    exact h

theorem Kept.record_new {log : List String} {p : Positions} (h : Kept log p) {f : Fill} (hnew : p.raw.has f.orderID = false) :
    Kept (log ++ [f.orderID]) (p.record f) := by
  have habsent : f.orderID ∉ p.makeRoom.orderSeq := fun hmem => (p.lacks_iff _).mp hnew (p.makeRoom_part.subset hmem)
  refine ⟨?_, ?_⟩
  · rw [record_seq hnew, List.length_append, List.length_singleton]
    exact makeRoom_room h.bounded
  · rw [record_seq hnew]
    exact (h.follows.part p.makeRoom_part).push habsent

theorem Kept.record {log : List String} {p : Positions} (h : Kept log p) (f : Fill) :
    Kept (log ++ p.raw.insertion (.recordFill f)) (p.record f) := by
  rw [insertion]
  cases hhas : p.raw.has f.orderID with
  | true =>
    rw [if_pos rfl, record_old hhas, List.append_nil]
    exact h
  | false =>
    rw [if_neg Bool.false_ne_true]
    exact h.record_new hhas

theorem Kept.forget {log : List String} {p : Positions} (h : Kept log p) (settled : List SettledOrder) :
    Kept log (p.forget settled) := h.part (p.forget_part settled)

/-! ## What leaves -/

/-- The limit drops the first of the sequence and no other. -/
theorem makeRoom_drops (p : Positions) {id : String} (h : id ∈ p.orderSeq) :
    id ∉ p.makeRoom.orderSeq ↔ maxPositions ≤ p.orderSeq.length ∧ p.orderSeq.head? = some id := by
  rcases p.makeRoom_cases with ⟨hroom, hsame⟩ | ⟨hfull, oldest, hseq, -⟩
  · rw [hsame]
    exact ⟨fun hno => absurd h hno, fun hlimit => absurd hlimit.1 (Nat.not_le.mpr hroom)⟩
  · have hnodup := p.nodup
    rw [hseq] at h hnodup
    refine ⟨fun hno => ⟨hfull, ?_⟩, fun hlimit => ?_⟩
    · rcases List.mem_cons.mp h with rfl | hrest
      · rw [hseq, List.head?_cons]
      · exact absurd hrest hno
    · rw [hseq, List.head?_cons, Option.some.injEq] at hlimit
      exact hlimit.2 ▸ (List.nodup_cons.mp hnodup).1

theorem forget_drops (settled : List SettledOrder) (p : Positions) {id : String} (h : id ∈ p.orderSeq) :
    id ∉ (p.forget settled).orderSeq ↔ id ∈ settled.map (·.orderID) := by
  refine ⟨fun hno => ?_, fun hid => ?_⟩
  · induction settled generalizing p with
    | nil => exact absurd h hno
    | cons so settled ih =>
      by_cases hso : id = so.orderID
      · exact hso ▸ List.mem_cons_self
      · exact List.mem_cons_of_mem _ (ih (p.remove so.orderID) ((List.mem_erase_of_ne hso).mpr h) hno)
  · rw [← lacks_iff, ← absent_iff]
    exact forget_absent settled (Or.inr hid)

end Positions

namespace PositionStore

open Positions

/-- How an id goes: named by a `forget`, or the oldest of 500 when a new id comes. -/
inductive Leaves (s : PositionStore) (id : String) : Call → Prop
  | forgotten (settled : List SettledOrder) : id ∈ settled.map (·.orderID) → Leaves s id (.forget settled)
  | evicted (f : Fill) : s.has f.orderID = false → s.orderSeq.length = maxPositions → s.orderSeq.head? = some id →
      Leaves s id (.recordFill f)

theorem leaves_iff {log : List String} {p : Positions} (h : Kept log p) {id : String} (hid : p.raw.has id = true) (c : Call) :
    (p.raw.step c).has id = false ↔ Leaves p.raw id c := by
  have hmem := (p.has_iff _).mp hid
  cases c with
  | forget settled =>
    rw [step, raw_forget, lacks_iff, forget_drops settled p hmem]
    refine ⟨Leaves.forgotten settled, fun hl => ?_⟩
    cases hl with
    | forgotten _ hin => exact hin
  | recordFill f =>
    rw [step, raw_recordFill, lacks_iff]
    cases hhas : p.raw.has f.orderID with
    | true =>
      rw [record_old hhas]
      refine ⟨fun hno => absurd hmem hno, fun hl => ?_⟩
      cases hl with
      | evicted _ hnew _ _ => exact absurd (hhas.symm.trans hnew) (by decide)
    | false =>
      have hne : id ≠ f.orderID := fun he => absurd (hid.symm.trans (he ▸ hhas)) (by decide)
      have hlast : id ∉ (p.record f).orderSeq ↔ id ∉ p.makeRoom.orderSeq := by
        rw [record_seq hhas, List.mem_append, List.mem_singleton, or_iff_left hne]
      rw [hlast, makeRoom_drops p hmem]
      refine ⟨fun hfull => ?_, fun hl => ?_⟩
      · exact Leaves.evicted f hhas (Nat.le_antisymm h.bounded hfull.1) hfull.2
      · cases hl with
        | evicted _ _ hfull hfirst => exact ⟨Nat.le_of_eq hfull.symm, hfirst⟩

/-! ## Every history -/

/-- The store is a `Positions` that keeps to the log of its insertions. -/
def Reached (log : List String) (s : PositionStore) : Prop := ∃ p : Positions, s = p.raw ∧ Kept log p

theorem logged_reached (log : List String) (s : PositionStore) (c : Call) (h : Reached log s) :
    Reached (log ++ (logged s c).2) (logged s c).1 := by
  obtain ⟨p, rfl, hp⟩ := h
  cases c with
  | forget settled =>
    refine ⟨p.forget settled, raw_forget p settled, ?_⟩
    show Kept (log ++ []) _
    rw [List.append_nil]
    exact hp.forget settled
  | recordFill f => exact ⟨p.record f, raw_recordFill p f, hp.record f⟩

theorem run_reached (cs : List Call) : Reached (inserted cs) (run cs) :=
  outputs_inv logged Reached logged_reached cs ⟨Positions.empty, rfl, kept_empty⟩

theorem record_has (p : Positions) (f : Fill) : (p.raw.recordFill f).has f.orderID = true := by
  rw [raw_recordFill, has_iff]
  cases hhas : p.raw.has f.orderID with
  | true =>
    rw [record_old hhas]
    exact (p.has_iff _).mp hhas
  | false =>
    rw [record_seq hhas]
    exact List.mem_append_right _ (List.mem_singleton_self _)

/-- What the position store is after a history of calls. -/
structure Represented (cs : List Call) (s : PositionStore) : Prop where
  covers : ∀ id, id ∈ s.positions.keys ↔ id ∈ s.orderSeq
  nodup : s.orderSeq.Nodup
  bounded : s.orderSeq.length ≤ maxPositions
  /-- `dedup` keeps the last of equal entries. -/
  inOrder : s.orderSeq = (inserted cs).dedup.filter s.has
  recorded : ∀ f, (s.recordFill f).has f.orderID
  again : ∀ f, s.has f.orderID → s.recordFill f = s
  gone : ∀ c id, s.has id → ((s.step c).has id = false ↔ Leaves s id c)

/-- The map and the sequence agree whatever the history. -/
theorem position_store (cs : List Call) : Represented cs (run cs) := by
  obtain ⟨p, hraw, hp⟩ := run_reached cs
  rw [hraw]
  refine ⟨fun id => ?_, p.nodup, hp.bounded, hp.follows.eq_filter p.has_iff, record_has p, fun f hf => ?_, fun c id hid => ?_⟩
  · rw [raw_positions, raw_orderSeq, p.inOrder]
  · rw [raw_recordFill, record_old hf]
  · exact leaves_iff hp hid c

end PositionStore

/-! ## In the broker -/

/-- Some history of calls made the store of this broker. -/
def Stored (s : Broker) : Prop := ∃ cs, s.positions.raw = PositionStore.run cs

theorem stored_call {p q : Positions} (h : ∃ cs, p.raw = PositionStore.run cs) (c : PositionStore.Call)
    (hq : p.raw.step c = q.raw) : ∃ cs, q.raw = PositionStore.run cs := by
  obtain ⟨cs, hcs⟩ := h
  refine ⟨cs ++ [c], ?_⟩
  rw [PositionStore.run, List.foldl_concat, ← hq, hcs]
  rfl

theorem step_stored {s : Broker} (h : Stored s) (a : Action) : Stored (step s a) := by
  cases a with
  | fill f => exact stored_call h (.recordFill f) (s.positions.raw_recordFill f)
  | frame st =>
    simp only [step]
    split <;> exact h
  | settle ok =>
    simp only [step]
    split
    · exact h
    · exact h
    · unfold persistSession
      split <;> exact h
    · rename_i snap _
      exact stored_call h (.forget snap.settled) (s.positions.raw_forget snap.settled)

/-- In every state of the settlement loop. -/
theorem run_stored (hash : Totals) (as : List Action) : Stored (run (start hash) as) :=
  fold_inv Stored (fun _ a h => step_stored h a) as ⟨[], rfl⟩

end CasuyaLive.Execution.Live
