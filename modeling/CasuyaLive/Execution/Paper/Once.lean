/-
  CasuyaLive.Execution.Paper.Once — how often the paper broker settles an order.

  The run loop and the sweep each read the pending hash, settle from what they read, and
  delete at the end; neither looks whether the other took an order meanwhile. An order
  counts as taken from the moment a batch with it is made (`takenTx`: its delta is added or
  owed; `takenAdd`: its entry is appended or owed). `step_inv`: while every batch is made
  of orders that are still pending and not in the other goroutine's batch (`Exclusive`), no
  order is taken twice, and what is taken and pending is in a batch in flight.
  `settles_at_most_once`: then no order id is appended to the ledger twice, and none is
  credited twice to the hash. Without it a sweep that has read the hash settles what the
  run loop settled after it (`a_sweep_settles_what_the_loop_settled`).
-/

import CasuyaLive.Execution.Paper.Broker

namespace CasuyaLive.Execution.Paper

open CasuyaLive.Lib

/-! ## Orders in flight -/

def flight : Option Work → List String
  | none => []
  | some w => w.batch.ids

/-- The ids whose delta the batch has still to add. -/
def owedTx : Option Work → List String
  | none => []
  | some w =>
    match w.stage with
    | .count => w.batch.ids
    | .session => w.batch.ids
    | .tx => w.batch.ids
    | .adds _ => []
    | .snapshot => []
    | .publish _ => []
    | .hdel => []

/-- The ids whose entry the batch has still to append. -/
def owedAdds : Option Work → List String
  | none => []
  | some w =>
    match w.stage with
    | .count => w.batch.ids
    | .session => w.batch.ids
    | .tx => w.batch.ids
    | .adds rest => rest.map (·.orderID)
    | .snapshot => []
    | .publish _ => []
    | .hdel => []

def sweepWork : Sweep → Option Work
  | .idle => none
  | .scanning _ _ => none
  | .settling _ => none
  | .working _ w => some w

/-- The fills the sweep has read and not settled yet. -/
def copies : Sweep → List (String × Fill)
  | .idle => []
  | .scanning rest stale => rest ++ stale
  | .settling rest => rest
  | .working rest _ => rest

/-- A step of the sweep moves on with no batch in hand, starts one, or advances the one it
    has. -/
theorem stepSweep_cases (now : Int) (s : Broker) :
    (∃ sw, stepSweep now s = { s with sweep := sw } ∧ sweepWork s.sweep = none ∧ sweepWork sw = none ∧
      ∀ x ∈ copies sw, x ∈ copies s.sweep ∨ x ∈ s.pending.fills) ∨
    (∃ x rest, s.sweep = .settling (x :: rest) ∧
      stepSweep now s = { s with sweep := .working rest (started (sweepBatch x (metaOf s x.2.matchID))) }) ∨
    (∃ rest w sw, s.sweep = .working rest w ∧ stepSweep now s = { (advance now s w).1 with sweep := sw } ∧
      sweepWork sw = (advance now s w).2 ∧ copies sw = rest) := by
  unfold stepSweep
  split
  · rename_i hs
    refine Or.inl ?_
    split
    · exact ⟨s.sweep, rfl, by rw [hs]; rfl, by rw [hs]; rfl, fun x hx => Or.inl hx⟩
    · refine ⟨_, rfl, by rw [hs]; rfl, rfl, fun x hx => Or.inr ?_⟩
      rw [copies, List.append_nil] at hx
      exact List.mem_of_mem_filter hx
  · rename_i hs
    exact Or.inl ⟨_, rfl, by rw [hs]; rfl, rfl, fun x hx => by cases hx⟩
  · rename_i stale _ hs
    exact Or.inl ⟨_, rfl, by rw [hs]; rfl, rfl, fun x hx => Or.inl (by rw [hs]; exact hx)⟩
  · rename_i x rest stale hs
    refine Or.inl ⟨_, rfl, by rw [hs]; rfl, rfl, fun y hy => Or.inl ?_⟩
    rw [hs]
    simp only [copies, List.mem_append, List.mem_cons] at hy ⊢
    rcases hy with hy | hy
    · exact Or.inl (Or.inr hy)
    · split at hy
      · rcases List.mem_append.mp hy with hy | hy
        · exact Or.inr hy
        · exact Or.inl (Or.inl (List.mem_singleton.mp hy))
      · exact Or.inr hy
  · rename_i hs
    exact Or.inl ⟨_, rfl, by rw [hs]; rfl, rfl, fun x hx => by cases hx⟩
  · rename_i x rest hs
    exact Or.inr (Or.inl ⟨x, rest, hs, rfl⟩)
  · rename_i rest w hs
    refine Or.inr (Or.inr ?_)
    simp only
    split
    · rename_i w' hw'
      exact ⟨rest, w, _, hs, rfl, by rw [hw']; rfl, rfl⟩
    · rename_i hw'
      exact ⟨rest, w, _, hs, rfl, by rw [hw']; rfl, rfl⟩

def creditedIDs (s : Broker) : List String := s.credited.map (·.orderID)

def recordedIDs (s : Broker) : List String := s.ledger.map (·.orderID)

def takenTx (s : Broker) (id : String) : Nat :=
  (creditedIDs s).count id + (owedTx s.loop).count id + (owedTx (sweepWork s.sweep)).count id

def takenAdd (s : Broker) (id : String) : Nat :=
  (recordedIDs s).count id + (owedAdds s.loop).count id + (owedAdds (sweepWork s.sweep)).count id

theorem owedTx_flight (w : Option Work) : ∀ id ∈ owedTx w, id ∈ flight w := by
  intro id h
  cases w with
  | none => exact h
  | some w =>
    unfold owedTx at h
    simp only at h
    split at h
    · exact h
    · exact h
    · exact h
    · cases h
    · cases h
    · cases h
    · cases h

/-- What one step of a batch leaves behind: what it owed is added or still owed, and its
    orders stay pending until it is done. -/
structure Advanced (s s' : Broker) (w : Work) (w' : Option Work) : Prop where
  tx : ∀ id, (creditedIDs s').count id + (owedTx w').count id = (creditedIDs s).count id + (owedTx (some w)).count id
  add : ∀ id, (recordedIDs s').count id + (owedAdds w').count id = (recordedIDs s).count id + (owedAdds (some w)).count id
  pending : ∀ id ∈ s'.pending.ids, id ∈ s.pending.ids ∧ (id ∈ w.batch.ids → id ∈ flight w')
  batch : ∀ v, w' = some v → v.batch = w.batch
  loop : s'.loop = s.loop
  sweep : s'.sweep = s.sweep

theorem advance_spec (now : Int) (s : Broker) {w : Work} (h : w.batch.Keyed) :
    Advanced s (advance now s w).1 w (advance now s w).2 := by
  unfold Batch.Keyed at h
  obtain ⟨b, c, stage⟩ := w
  cases stage with
  | count => constructor <;> simp [advance, owedTx, owedAdds, flight, creditedIDs, recordedIDs]
  | session => constructor <;> simp [advance, owedTx, owedAdds, flight, creditedIDs, recordedIDs]
  | tx =>
    constructor <;> simp [advance, owedTx, owedAdds, flight, creditedIDs, recordedIDs, entries_ids, List.count_append, h]
  | adds rest =>
    cases rest with
    | nil => constructor <;> simp [advance, owedTx, owedAdds, flight, creditedIDs, recordedIDs]
    | cons e rest =>
      constructor <;> simp [advance, owedTx, owedAdds, flight, creditedIDs, recordedIDs, List.count_cons, List.count_append]
      all_goals omega
  | snapshot => constructor <;> simp [advance, owedTx, owedAdds, flight, creditedIDs, recordedIDs]
  | publish snap => constructor <;> simp [advance, owedTx, owedAdds, flight, creditedIDs, recordedIDs]
  | hdel =>
    constructor <;> simp [advance, owedTx, owedAdds, flight, creditedIDs, recordedIDs, Orders.mem_ids_remove]

/-! ## The invariant -/

structure Inv (s : Broker) : Prop where
  balanced : ∀ id, takenTx s id = takenAdd s id
  once : ∀ id, takenTx s id ≤ 1
  inFlight : ∀ id ∈ s.pending.ids, 0 < takenTx s id → id ∈ flight s.loop ∨ id ∈ flight (sweepWork s.sweep)
  loopKeyed : ∀ w, s.loop = some w → w.batch.Keyed
  sweepKeyed : ∀ w, sweepWork s.sweep = some w → w.batch.Keyed
  copied : ∀ x ∈ copies s.sweep, x.2.orderID = x.1

/-- The order the sweep settles next. -/
def nextStale : Sweep → Option (String × Fill)
  | .idle => none
  | .scanning _ _ => none
  | .settling rest => rest.head?
  | .working _ _ => none

/-- A batch is made of orders that are still pending and not in the other goroutine's batch,
    and no new order gets the id of a graded one. -/
def Exclusive (s : Broker) : Action → Prop
  | .execute now p => ∀ f ∈ placeOrder now p,
      f.orderID ∉ creditedIDs s ∧ f.orderID ∉ flight s.loop ∧ f.orderID ∉ flight (sweepWork s.sweep)
  | .putMeta _ _ => True
  | .frame f => s.loop.isNone = true → ∀ b ∈ feedBatch s.pending f, ∀ id ∈ b.ids, id ∉ flight (sweepWork s.sweep)
  | .loop _ => True
  | .sweep _ => ∀ x ∈ nextStale s.sweep, x.1 ∈ s.pending.ids ∧ x.1 ∉ flight s.loop

instance (s : Broker) (a : Action) : Decidable (Exclusive s a) := by
  cases a <;> unfold Exclusive <;> infer_instance

theorem start_inv (pending : Orders) (metas : Table String MatchMeta) (hash : Totals) : Inv (start pending metas hash) := by
  constructor <;> simp [start, takenTx, takenAdd, creditedIDs, recordedIDs, owedTx, owedAdds, sweepWork, copies]

theorem taken_pos {s : Broker} {id : String} (h : 0 < takenTx s id) :
    id ∈ creditedIDs s ∨ id ∈ flight s.loop ∨ id ∈ flight (sweepWork s.sweep) := by
  unfold takenTx at h
  by_cases h1 : 0 < (creditedIDs s).count id
  · exact Or.inl (List.count_pos_iff.mp h1)
  · by_cases h2 : 0 < (owedTx s.loop).count id
    · exact Or.inr (Or.inl (owedTx_flight _ _ (List.count_pos_iff.mp h2)))
    · have h3 : 0 < (owedTx (sweepWork s.sweep)).count id := by omega
      exact Or.inr (Or.inr (owedTx_flight _ _ (List.count_pos_iff.mp h3)))

theorem execute_inv {s : Broker} (h : Inv s) {f : Fill}
    (hf : f.orderID ∉ creditedIDs s ∧ f.orderID ∉ flight s.loop ∧ f.orderID ∉ flight (sweepWork s.sweep)) :
    Inv { s with pending := s.pending.insert f } := by
  refine ⟨h.balanced, h.once, fun id hid hpos => ?_, h.loopKeyed, h.sweepKeyed, h.copied⟩
  rcases (Orders.mem_ids_insert s.pending f id).mp hid with rfl | hid
  · rcases taken_pos (s := s) hpos with hc | hl | hs
    · exact absurd hc hf.1
    · exact absurd hl hf.2.1
    · exact absurd hs hf.2.2
  · exact h.inFlight id hid hpos

/-- The run loop makes a batch. -/
theorem frame_inv {s : Broker} (h : Inv s) (hl : s.loop = none) {f : Frame} {b : Batch} (hb : feedBatch s.pending f = some b)
    (hc : ∀ id ∈ b.ids, id ∉ flight (sweepWork s.sweep)) : Inv { s with loop := some (started b) } := by
  obtain ⟨hkeyed, hnodup, -, hsub⟩ := feedBatch_spec hb
  have htx : ∀ id, takenTx { s with loop := some (started b) } id = takenTx s id + b.ids.count id := by
    intro id
    simp only [takenTx, creditedIDs, hl, owedTx, started, List.count_nil]
    omega
  have hadd : ∀ id, takenAdd { s with loop := some (started b) } id = takenAdd s id + b.ids.count id := by
    intro id
    simp only [takenAdd, recordedIDs, hl, owedAdds, started, List.count_nil]
    omega
  have hfresh : ∀ id ∈ b.ids, takenTx s id = 0 := by
    intro id hid
    by_contra hne
    rcases h.inFlight id (hsub id hid) (by omega) with hx | hx
    · rw [hl] at hx
      cases hx
    · exact hc id hid hx
  refine ⟨fun id => ?_, fun id => ?_, fun id hid hpos => ?_, fun w hw => ?_, h.sweepKeyed, h.copied⟩
  · rw [htx, hadd, h.balanced]
  · rw [htx]
    by_cases hid : id ∈ b.ids
    · have h0 := hfresh id hid
      have h1 := List.nodup_iff_count_le_one.mp hnodup id
      omega
    · have h0 := List.count_eq_zero.mpr hid
      have h1 := h.once id
      omega
  · rw [htx] at hpos
    by_cases hb' : id ∈ b.ids
    · exact Or.inl hb'
    · have h0 := List.count_eq_zero.mpr hb'
      rcases h.inFlight id hid (by omega) with hx | hx
      · rw [hl] at hx
        cases hx
      · exact Or.inr hx
  · cases hw
    exact hkeyed

/-- The sweep makes the batch of one order. -/
theorem sweepOne_inv {s : Broker} (h : Inv s) {x : String × Fill} {rest : List (String × Fill)}
    (hs : s.sweep = .settling (x :: rest)) (m : MatchMeta) (hp : x.1 ∈ s.pending.ids) (hc : x.1 ∉ flight s.loop) :
    Inv { s with sweep := .working rest (started (sweepBatch x m)) } := by
  have hx : x.2.orderID = x.1 := h.copied x (by rw [hs]; simp [copies])
  obtain ⟨hkeyed, hids⟩ := sweepBatch_spec hx m
  have hnone : sweepWork s.sweep = none := by rw [hs]; rfl
  have htx : ∀ id, takenTx { s with sweep := .working rest (started (sweepBatch x m)) } id = takenTx s id + [x.1].count id := by
    intro id
    have : owedTx (sweepWork (.working rest (started (sweepBatch x m)))) = [x.1] := rfl
    simp only [takenTx, creditedIDs, hnone, this]
    simp [owedTx]
  have hadd : ∀ id, takenAdd { s with sweep := .working rest (started (sweepBatch x m)) } id = takenAdd s id + [x.1].count id := by
    intro id
    have : owedAdds (sweepWork (.working rest (started (sweepBatch x m)))) = [x.1] := rfl
    simp only [takenAdd, recordedIDs, hnone, this]
    simp [owedAdds]
  have hfresh : takenTx s x.1 = 0 := by
    by_contra hne
    rcases h.inFlight x.1 hp (by omega) with hf | hf
    · exact hc hf
    · rw [hnone] at hf
      cases hf
  refine ⟨fun id => ?_, fun id => ?_, fun id hid hpos => ?_, h.loopKeyed, fun w hw => ?_, fun y hy => ?_⟩
  · rw [htx, hadd, h.balanced]
  · rw [htx]
    by_cases hid : id = x.1
    · subst hid
      simp [hfresh]
    · have h0 : [x.1].count id = 0 := List.count_eq_zero.mpr (by simpa using hid)
      have h1 := h.once id
      omega
  · rw [htx] at hpos
    by_cases hx' : id = x.1
    · exact Or.inr (by rw [hx']; exact List.mem_singleton_self _)
    · have h0 : [x.1].count id = 0 := List.count_eq_zero.mpr (by simpa using hx')
      rcases h.inFlight id hid (by omega) with hf | hf
      · exact Or.inl hf
      · rw [hnone] at hf
        cases hf
  · cases hw
    exact hkeyed
  · exact h.copied y (by rw [hs]; exact List.mem_cons_of_mem _ hy)

/-- What leaves every count alone keeps the accounts. -/
theorem Inv.accounts {s t : Broker} (h : Inv s) (htx : ∀ id, takenTx t id = takenTx s id)
    (hadd : ∀ id, takenAdd t id = takenAdd s id) (id : String) : takenTx t id = takenAdd t id ∧ takenTx t id ≤ 1 := by
  rw [htx, hadd]
  exact ⟨h.balanced id, h.once id⟩

theorem loop_inv {s : Broker} (h : Inv s) {w : Work} (hl : s.loop = some w) (now : Int) :
    Inv { (advance now s w).1 with loop := (advance now s w).2 } := by
  have ha := advance_spec now s (h.loopKeyed w hl)
  generalize (advance now s w).1 = s' at ha ⊢
  generalize (advance now s w).2 = w' at ha ⊢
  have htx : ∀ id, takenTx { s' with loop := w' } id = takenTx s id := by
    intro id
    have := ha.tx id
    simp only [takenTx, creditedIDs, hl, ha.sweep] at this ⊢
    omega
  have hadd : ∀ id, takenAdd { s' with loop := w' } id = takenAdd s id := by
    intro id
    have := ha.add id
    simp only [takenAdd, recordedIDs, hl, ha.sweep] at this ⊢
    omega
  have haccounts := h.accounts htx hadd
  refine ⟨fun id => (haccounts id).1, fun id => (haccounts id).2, fun id hid hpos => ?_, fun v hv => ?_, fun v hv => ?_,
    fun y hy => ?_⟩
  · rw [htx] at hpos
    obtain ⟨hp, hfl⟩ := ha.pending id hid
    rcases h.inFlight id hp hpos with hf | hf
    · rw [hl] at hf
      exact Or.inl (hfl hf)
    · exact Or.inr (by rw [ha.sweep]; exact hf)
  · rw [ha.batch v hv]
    exact h.loopKeyed w hl
  · exact h.sweepKeyed v (by rw [← ha.sweep]; exact hv)
  · exact h.copied y (by rw [← ha.sweep]; exact hy)

theorem working_inv {s : Broker} (h : Inv s) {rest : List (String × Fill)} {w : Work} (hs : s.sweep = .working rest w)
    (now : Int) {sw : Sweep} (hw : sweepWork sw = (advance now s w).2) (hcp : copies sw = rest) :
    Inv { (advance now s w).1 with sweep := sw } := by
  have hwork : sweepWork s.sweep = some w := by rw [hs]; rfl
  have ha := advance_spec now s (h.sweepKeyed w hwork)
  rw [← hw] at ha
  generalize (advance now s w).1 = s' at ha ⊢
  have htx : ∀ id, takenTx { s' with sweep := sw } id = takenTx s id := by
    intro id
    have := ha.tx id
    simp only [takenTx, creditedIDs, hwork, ha.loop] at this ⊢
    omega
  have hadd : ∀ id, takenAdd { s' with sweep := sw } id = takenAdd s id := by
    intro id
    have := ha.add id
    simp only [takenAdd, recordedIDs, hwork, ha.loop] at this ⊢
    omega
  have haccounts := h.accounts htx hadd
  refine ⟨fun id => (haccounts id).1, fun id => (haccounts id).2, fun id hid hpos => ?_, fun v hv => ?_, fun v hv => ?_,
    fun y hy => ?_⟩
  · rw [htx] at hpos
    obtain ⟨hp, hfl⟩ := ha.pending id hid
    rcases h.inFlight id hp hpos with hf | hf
    · exact Or.inl (by rw [ha.loop]; exact hf)
    · rw [hwork] at hf
      exact Or.inr (hfl hf)
  · exact h.loopKeyed v (by rw [← ha.loop]; exact hv)
  · rw [ha.batch v hv]
    exact h.sweepKeyed w hwork
  · refine h.copied y ?_
    rw [hs]
    rwa [hcp] at hy

/-- A step of the sweep that settles nothing. -/
theorem scan_inv {s : Broker} (h : Inv s) {sw : Sweep} (h0 : sweepWork s.sweep = none) (h1 : sweepWork sw = none)
    (hcp : ∀ x ∈ copies sw, x.2.orderID = x.1) : Inv { s with sweep := sw } := by
  have htx : ∀ id, takenTx { s with sweep := sw } id = takenTx s id := by
    intro id
    simp only [takenTx, creditedIDs, h0, h1]
  have hadd : ∀ id, takenAdd { s with sweep := sw } id = takenAdd s id := by
    intro id
    simp only [takenAdd, recordedIDs, h0, h1]
  have haccounts := h.accounts htx hadd
  refine ⟨fun id => (haccounts id).1, fun id => (haccounts id).2, fun id hid hpos => ?_, h.loopKeyed, fun w hw => ?_, hcp⟩
  · rw [htx] at hpos
    rw [h1, ← h0]
    exact h.inFlight id hid hpos
  · rw [h1] at hw
    cases hw

theorem stepSweep_inv {s : Broker} (h : Inv s) (now : Int) (hc : Exclusive s (.sweep now)) : Inv (stepSweep now s) := by
  rcases stepSweep_cases now s with ⟨sw, he, h0, h1, hcp⟩ | ⟨x, rest, hs, he⟩ | ⟨rest, w, sw, hs, he, hw, hcp⟩
  · rw [he]
    refine scan_inv h h0 h1 fun x hx => ?_
    rcases hcp x hx with hold | hread
    · exact h.copied x hold
    · exact s.pending.fills_key hread
  · obtain ⟨hp, hl⟩ := hc x (by rw [hs]; rfl)
    rw [he]
    exact sweepOne_inv h hs _ hp hl
  · rw [he]
    exact working_inv h hs now hw hcp

theorem step_inv (s : Broker) (a : Action) (h : Inv s) (hc : Exclusive s a) : Inv (step s a) := by
  cases a with
  | execute now p =>
    simp only [step]
    cases hf : placeOrder now p with
    | none => exact h
    | some f => exact execute_inv h (hc f hf)
  | putMeta matchID m => exact ⟨h.balanced, h.once, h.inFlight, h.loopKeyed, h.sweepKeyed, h.copied⟩
  | frame f =>
    simp only [step]
    cases hl : s.loop with
    | some w => exact h
    | none =>
      cases hb : feedBatch s.pending f with
      | none =>
        have : { s with loop := (none : Option Work) } = s := by rw [← hl]
        simp only [Option.map_none]
        rwa [this]
      | some b => exact frame_inv h hl hb (hc (by rw [hl]; rfl) b hb)
  | loop now =>
    simp only [step]
    cases hl : s.loop with
    | none => exact h
    | some w => exact loop_inv h hl now
  | sweep now => exact stepSweep_inv h now hc

/-! ## At most once -/

/-- Since the start no order id was appended to the ledger twice and none was credited twice,
    and the hash has grown by exactly what was credited. -/
structure AtMostOnce (hash : Totals) (s : Broker) : Prop where
  recorded : (recordedIDs s).Nodup
  credited : (creditedIDs s).Nodup
  hash : s.hash = hash + settlementTotals s.credited

theorem Inv.once_each {s : Broker} (h : Inv s) : (recordedIDs s).Nodup ∧ (creditedIDs s).Nodup := by
  constructor <;> rw [List.nodup_iff_count_le_one] <;> intro id
  · have h1 := h.once id
    rw [h.balanced] at h1
    unfold takenAdd at h1
    omega
  · have h1 := h.once id
    unfold takenTx at h1
    omega

/-- In every state a schedule of exclusive batches passes through, each order is settled at
    most once. -/
theorem settles_at_most_once (pending : Orders) (metas : Table String MatchMeta) (hash : Totals) (as : List Action)
    (h : Meets step Exclusive (start pending metas hash) as) :
    ∀ pre, pre <+: as → AtMostOnce hash (run (start pending metas hash) pre) := by
  intro pre hpre
  have hinv := run_always Inv step_inv (start_inv pending metas hash) h pre hpre
  obtain ⟨hr, hc⟩ := hinv.once_each
  exact ⟨hr, hc, hash_counts rfl pre⟩

/-- A home bet on match m1, which kicked off at second 1, and one on m2. -/
def twoOrders : Orders :=
  (Orders.empty.insert ⟨"paper_1", "FULLTIME_1X2", "home", 2, 10, "m1", 1⟩).insert
    ⟨"paper_2", "FULLTIME_1X2", "away", 3, 10, "m2", 2⟩

def longOver : Table String MatchMeta := (Table.empty.set "m1" ⟨1, 0, "88'", 1, 0⟩).set "m2" ⟨1, 0, "70'", 0, 0⟩

def fourHours : Int := 4 * 60 * 60 * 1000000000

/-- The run loop settles m1, then the sweep settles m2. -/
def oneAfterTheOther : List Action :=
  .frame ⟨"FULLTIME", "m1", some (1, 0)⟩ :: (List.replicate 8 (.loop fourHours) ++ List.replicate 12 (.sweep fourHours))

theorem one_after_the_other_settles_once : AtMostOnce 0 (run (start twoOrders longOver 0) oneAfterTheOther) :=
  settles_at_most_once twoOrders longOver 0 oneAfterTheOther (by decide +kernel) oneAfterTheOther (List.prefix_refl _)

/-- The sweep reads the hash, the run loop settles m1, the sweep settles it again. -/
def sweepOverlapsLoop : List Action :=
  List.replicate 4 (.sweep fourHours) ++ .frame ⟨"FULLTIME", "m1", some (1, 0)⟩ ::
    (List.replicate 8 (.loop fourHours) ++ List.replicate 5 (.sweep fourHours))

theorem a_sweep_settles_what_the_loop_settled : ¬ AtMostOnce 0 (run (start twoOrders longOver 0) sweepOverlapsLoop) :=
  fun h => absurd h.recorded (by decide +kernel)

end CasuyaLive.Execution.Paper
