/-
  CasuyaLive.Execution.Paper.Failures — the paper broker's batches one after another, when
  its writes may fail.

  A batch has a transaction on the PnL hash, a pipeline of ledger entries and an HDEL. The
  error of each is logged or ignored, and the next is sent all the same. `settleBatch` is a
  whole batch with a choice of the writes that take effect; with all of them it is what the
  goroutines do step by step (`loop_alone`, `scan_alone`, `sweep_alone`).
  `counted_once_iff`: in every state between batches each removed order is counted once in
  the hash and once in the ledger, and each pending one in neither, iff the writes of every
  batch take effect together or not at all. A failed HDEL counts its orders again, a failed
  transaction loses them (`a_failed_delete_counts_twice`).
-/

import CasuyaLive.Execution.Paper.Once

namespace CasuyaLive.Execution.Paper

open CasuyaLive.Lib

/-- Which writes of a batch take effect; of the pipeline, by order id. -/
structure Writes where
  tx : Bool
  adds : String → Bool
  hdel : Bool

def allWrites : Writes := ⟨true, fun _ => true, true⟩

/-- One batch from numbering it to its HDEL. -/
def settleBatch (now : Int) (w : Writes) (b : Batch) (s : Broker) : Broker :=
  let cycle := s.cycle + 1
  let session := s.session + b.totals
  { s with
    pending := if w.hdel then s.pending.remove b.ids else s.pending
    hash := if w.tx then s.hash + b.totals else s.hash
    updatedCycle := if w.tx then cycle else s.updatedCycle
    ledger := s.ledger ++ (b.entries now).filter (w.adds ·.orderID)
    session := session
    cycle := cycle
    published := s.published ++ [⟨cycle, b.matchID, b.home.toInt, b.away.toInt, b.settled, session⟩]
    credited := if w.tx then s.credited ++ b.settled else s.credited }

/-- The orders a sweep finds stale. -/
def staleOf (now : Int) (s : Broker) : List (String × Fill) :=
  (s.pending.fills.filter (·.2.matchID != "")).filter fun x => isStale now (metaOf s x.2.matchID)

inductive Event where
  | putMeta (matchID : String) (m : MatchMeta)
  | frame (f : Frame) (now : Int) (w : Writes)
  /-- The sweep reads the hash and the match hashes. -/
  | sweep (now : Int)
  /-- It settles its next order. -/
  | sweepNext (now : Int) (w : Writes)

/-- Nothing overlaps: a frame waits for the sweep to end. -/
def serial (s : Broker) : Event → Broker
  | .putMeta matchID m => { s with metas := s.metas.set matchID m }
  | .frame f now w =>
    match s.sweep with
    | .idle =>
      match feedBatch s.pending f with
      | none => s
      | some b => settleBatch now w b s
    | _ => s
  | .sweep now =>
    match s.sweep with
    | .idle => { s with sweep := .settling (staleOf now s) }
    | _ => s
  | .sweepNext now w =>
    match s.sweep with
    | .settling [] => { s with sweep := .idle }
    | .settling (x :: rest) => { settleBatch now w (sweepBatch x (metaOf s x.2.matchID)) s with sweep := .settling rest }
    | _ => s

/-! ## The same batch, step by step -/

theorem run_replicate_add (s : Broker) (a : Action) (n m : Nat) :
    run s (List.replicate (n + m) a) = run (run s (List.replicate n a)) (List.replicate m a) := by
  rw [run, List.replicate_add, List.foldl_append]
  rfl

theorem loop_adds (now : Int) : ∀ (es : List Entry) (s : Broker) (b : Batch) (c : Nat), s.loop = some ⟨b, c, .adds es⟩ →
    run s (List.replicate es.length (.loop now)) = { s with ledger := s.ledger ++ es, loop := some ⟨b, c, .adds []⟩ } := by
  intro es
  induction es with
  | nil =>
    intro s b c h
    rw [List.append_nil]
    simp only [List.length_nil, List.replicate_zero, run, List.foldl_nil]
    rw [← h]
  | cons e es ih =>
    intro s b c h
    have hstep : step s (.loop now) = { s with ledger := s.ledger ++ [e], loop := some ⟨b, c, .adds es⟩ } := by
      simp only [step, h, advance]
    rw [List.length_cons, List.replicate_succ, run, List.foldl_cons, ← run, hstep, ih _ b c rfl]
    simp

/-- A batch of the run loop that nothing interrupts. -/
theorem loop_alone (s : Broker) (now : Int) (b : Batch) (h : s.loop = some (started b)) :
    run s (List.replicate (3 + (b.settled.length + 4)) (.loop now)) = { settleBatch now allWrites b s with loop := none } := by
  have h3 : run s (List.replicate 3 (.loop now)) =
      { s with cycle := s.cycle + 1, session := s.session + b.totals, hash := s.hash + b.totals, updatedCycle := s.cycle + 1
               credited := s.credited ++ b.settled, loop := some ⟨b, s.cycle + 1, .adds (b.entries now)⟩ } := by
    simp [run, step, h, started, advance]
  have hlen : b.settled.length = (b.entries now).length := by simp [Batch.entries]
  rw [run_replicate_add, h3, run_replicate_add, hlen, loop_adds now _ _ _ _ rfl]
  simp [run, step, advance, settleBatch, allWrites]

theorem scan_steps (now : Int) : ∀ (rest stale : List (String × Fill)) (s : Broker), s.sweep = .scanning rest stale →
    run s (List.replicate rest.length (.sweep now)) =
      { s with sweep := .scanning [] (stale ++ rest.filter fun x => isStale now (metaOf s x.2.matchID)) } := by
  intro rest
  induction rest with
  | nil =>
    intro stale s h
    simp only [List.length_nil, List.replicate_zero, run, List.foldl_nil, List.filter_nil, List.append_nil]
    rw [← h]
  | cons x rest ih =>
    intro stale s h
    have hstep : step s (.sweep now) =
        { s with sweep := .scanning rest (if isStale now (metaOf s x.2.matchID) then stale ++ [x] else stale) } := by
      simp only [step, stepSweep, h]
    rw [List.length_cons, List.replicate_succ, run, List.foldl_cons, ← run, hstep, ih _ _ rfl, List.filter_cons]
    have hmeta : ∀ t : Sweep, metaOf { s with sweep := t } = metaOf s := fun _ => rfl
    by_cases hx : isStale now (metaOf s x.2.matchID) = true <;> simp [hmeta, hx]

/-- The scan of a sweep that nothing interrupts. -/
theorem scan_alone (s : Broker) (now : Int) (h : s.sweep = .idle) (hne : s.pending.table.entries.isEmpty = false) :
    run s (List.replicate (1 + ((s.pending.fills.filter (·.2.matchID != "")).length + 1)) (.sweep now)) =
      { s with sweep := if staleOf now s = [] then .idle else .settling (staleOf now s) } := by
  have h1 : run s (List.replicate 1 (.sweep now)) =
      { s with sweep := .scanning (s.pending.fills.filter (·.2.matchID != "")) [] } := by
    simp [run, step, stepSweep, h, hne]
  rw [run_replicate_add, h1, run_replicate_add, scan_steps now _ [] _ rfl, List.nil_append]
  show step { s with sweep := .scanning [] (staleOf now s) } (.sweep now) = _
  cases hs : staleOf now s with
  | nil => simp [step, stepSweep]
  | cons x l => simp [step, stepSweep]

/-- One order of the sweep that nothing interrupts. -/
theorem sweep_alone (s : Broker) (now : Int) (x : String × Fill) (rest : List (String × Fill)) (h : s.sweep = .settling (x :: rest)) :
    run s (List.replicate 9 (.sweep now)) = serial s (.sweepNext now allWrites) := by
  simp [run, step, stepSweep, h, started, advance, serial, settleBatch, allWrites, sweepBatch, settleOrders, Batch.entries]

/-! ## Counting -/

/-- Of the orders there were, each removed one is counted once in the hash and once in the
    ledger, each pending one in neither. -/
structure Counted (all : Orders) (hash : Totals) (s : Broker) : Prop where
  removed : ∀ id ∈ all.ids, id ∉ s.pending.ids → (creditedIDs s).count id = 1 ∧ (recordedIDs s).count id = 1
  pending : ∀ id ∈ s.pending.ids, (creditedIDs s).count id = 0 ∧ (recordedIDs s).count id = 0
  hash : s.hash = hash + settlementTotals s.credited

/-- The writes of the batch take effect together, or none does. -/
def AllOrNone (w : Writes) (b : Batch) : Prop := w.hdel = w.tx ∧ ∀ id ∈ b.ids, w.adds id = w.tx

instance (w : Writes) (b : Batch) : Decidable (AllOrNone w b) :=
  inferInstanceAs (Decidable (w.hdel = w.tx ∧ ∀ id ∈ b.ids, w.adds id = w.tx))

def isIdle : Sweep → Bool
  | .idle => true
  | .scanning _ _ => false
  | .settling _ => false
  | .working _ _ => false

/-- The batch of the event, if it makes one, is written as a whole. -/
def Whole (s : Broker) : Event → Prop
  | .putMeta _ _ => True
  | .frame f _ w => isIdle s.sweep = true → ∀ b ∈ feedBatch s.pending f, AllOrNone w b
  | .sweep _ => True
  | .sweepNext _ w => ∀ x ∈ nextStale s.sweep, AllOrNone w (sweepBatch x (metaOf s x.2.matchID))

instance (s : Broker) (e : Event) : Decidable (Whole s e) := by
  cases e <;> unfold Whole <;> infer_instance

/-- Between batches: the sweep waits or has stale orders to settle, all of them pending. -/
structure Serial (all : Orders) (s : Broker) : Prop where
  shape : s.sweep = .idle ∨ ∃ rest, s.sweep = .settling rest
  known : ∀ id ∈ s.pending.ids, id ∈ all.ids
  copied : ∀ x ∈ copies s.sweep, x.2.orderID = x.1 ∧ x.1 ∈ s.pending.ids
  distinct : ((copies s.sweep).map (·.1)).Nodup

theorem count_credited (now : Int) (w : Writes) {b : Batch} (hk : b.Keyed) (s : Broker) (id : String) :
    (creditedIDs (settleBatch now w b s)).count id = (creditedIDs s).count id + if w.tx then b.ids.count id else 0 := by
  unfold Batch.Keyed at hk
  cases h : w.tx <;> simp [creditedIDs, settleBatch, h, List.count_append, hk]

theorem count_recorded (now : Int) (w : Writes) {b : Batch} (hk : b.Keyed) (s : Broker) (id : String) :
    (recordedIDs (settleBatch now w b s)).count id = (recordedIDs s).count id + if w.adds id then b.ids.count id else 0 := by
  have hf : ∀ l : List Entry, ((l.filter (w.adds ·.orderID)).map (·.orderID)).count id =
      if w.adds id then (l.map (·.orderID)).count id else 0 := by
    intro l
    induction l with
    | nil => simp
    | cons e l ih =>
      by_cases he : e.orderID = id
      · cases ha : w.adds id <;> simp [he, ha] at ih ⊢ <;> omega
      · cases ha : w.adds e.orderID <;> simpa [ha, he] using ih
  have hids : (b.entries now).map (·.orderID) = b.ids := by rw [entries_ids]; exact hk
  simp only [recordedIDs, settleBatch, List.map_append, List.count_append, hf, hids]

theorem pending_settle (now : Int) (w : Writes) (b : Batch) (s : Broker) (id : String) :
    id ∈ (settleBatch now w b s).pending.ids ↔ id ∈ s.pending.ids ∧ (w.hdel = true → id ∉ b.ids) := by
  cases h : w.hdel <;> simp [settleBatch, h, Orders.mem_ids_remove]

/-- Every order of the batch is removed and counted, or pending and not counted. -/
theorem all_or_none {all : Orders} {hash : Totals} {s : Broker} (hq : Counted all hash s)
    (hall : ∀ id ∈ s.pending.ids, id ∈ all.ids) {b : Batch} (hk : b.Keyed) (hnodup : b.ids.Nodup) {now : Int} {w : Writes}
    (h : Counted all hash (settleBatch now w b s)) {id : String} (hid : id ∈ b.ids) (hpend : id ∈ s.pending.ids) :
    w.hdel = w.tx ∧ w.adds id = w.tx := by
  have h1 := count_credited now w hk s id
  have h2 := count_recorded now w hk s id
  obtain ⟨c0, r0⟩ := hq.pending id hpend
  rw [List.count_eq_one_of_mem hnodup hid] at h1 h2
  by_cases hd : w.hdel = true
  · have hgone : id ∉ (settleBatch now w b s).pending.ids := by
      rw [pending_settle]
      exact fun hx => hx.2 hd hid
    obtain ⟨c1, r1⟩ := h.removed id (hall id hpend) hgone
    cases ht : w.tx <;> cases ha : w.adds id <;> simp [ht, ha] at h1 h2 <;> simp [hd] <;> omega
  · have hstay : id ∈ (settleBatch now w b s).pending.ids := by
      rw [pending_settle]
      exact ⟨hpend, fun e => absurd e hd⟩
    obtain ⟨c1, r1⟩ := h.pending id hstay
    cases ht : w.tx <;> cases ha : w.adds id <;> simp [ht, ha] at h1 h2 <;> simp [hd] <;> omega

theorem counted_settle {all : Orders} {hash : Totals} {s : Broker} (hq : Counted all hash s) {b : Batch} (hk : b.Keyed)
    (hnodup : b.ids.Nodup) (hsub : ∀ id ∈ b.ids, id ∈ s.pending.ids) (now : Int) {w : Writes} (hx : AllOrNone w b) :
    Counted all hash (settleBatch now w b s) := by
  obtain ⟨hd, ha⟩ := hx
  refine ⟨fun id hid hgone => ?_, fun id hid => ?_, ?_⟩
  · rw [count_credited now w hk, count_recorded now w hk]
    by_cases hb : id ∈ b.ids
    · obtain ⟨c0, r0⟩ := hq.pending id (hsub id hb)
      have ht : w.tx = true := by
        by_contra hf
        apply hgone
        rw [pending_settle]
        exact ⟨hsub id hb, fun e => absurd (hd ▸ e) hf⟩
      simp [ha id hb, ht, c0, r0, List.count_eq_one_of_mem hnodup hb]
    · have hgone0 : id ∉ s.pending.ids := fun hp => hgone ((pending_settle now w b s id).mpr ⟨hp, fun _ => hb⟩)
      obtain ⟨c0, r0⟩ := hq.removed id hid hgone0
      simp [List.count_eq_zero.mpr hb, c0, r0]
  · rw [count_credited now w hk, count_recorded now w hk]
    obtain ⟨hp, hno⟩ := (pending_settle now w b s id).mp hid
    obtain ⟨c0, r0⟩ := hq.pending id hp
    by_cases hb : id ∈ b.ids
    · have ht : w.tx = false := by
        cases ht : w.tx with
        | false => rfl
        | true => exact absurd hb (hno (hd.trans ht))
      simp [ha id hb, ht, c0, r0]
    · simp [List.count_eq_zero.mpr hb, c0, r0]
  · have h0 := hq.hash
    cases ht : w.tx <;> simp [settleBatch, ht, h0, Batch.totals, add_assoc]

/-- One batch, written as `w` says, from a state that counts. -/
theorem settleBatch_counted {all : Orders} {hash : Totals} {s : Broker} (hq : Counted all hash s)
    (hall : ∀ id ∈ s.pending.ids, id ∈ all.ids) {b : Batch} (hk : b.Keyed) (hnodup : b.ids.Nodup) (hne : b.ids ≠ [])
    (hsub : ∀ id ∈ b.ids, id ∈ s.pending.ids) (now : Int) (w : Writes) :
    Counted all hash (settleBatch now w b s) ↔ AllOrNone w b := by
  constructor
  · intro h
    have hid : ∀ id ∈ b.ids, w.hdel = w.tx ∧ w.adds id = w.tx := fun id hm =>
      all_or_none hq hall hk hnodup h hm (hsub id hm)
    obtain ⟨id, rest, he⟩ := List.exists_cons_of_ne_nil hne
    exact ⟨(hid id (by rw [he]; exact List.mem_cons_self)).1, fun id hm => (hid id hm).2⟩
  · exact counted_settle hq hk hnodup hsub now

theorem settleBatch_sweep (now : Int) (w : Writes) (b : Batch) (s : Broker) : (settleBatch now w b s).sweep = s.sweep := rfl

/-! ## A step and a run -/

theorem serial_inv (all : Orders) (s : Broker) (e : Event) (h : Serial all s) : Serial all (serial s e) := by
  cases e with
  | putMeta matchID m => exact ⟨h.shape, h.known, h.copied, h.distinct⟩
  | frame f now w =>
    rcases h.shape with hs | ⟨rest, hs⟩
    · simp only [serial, hs]
      cases hb : feedBatch s.pending f with
      | none => exact h
      | some b =>
        have hc : copies (settleBatch now w b s).sweep = [] := by rw [settleBatch_sweep, hs]; rfl
        refine ⟨Or.inl hs, fun id hid => h.known id ((pending_settle now w b s id).mp hid).1, ?_, ?_⟩ <;> simp [hc]
    · simp only [serial, hs]
      exact h
  | sweep now =>
    rcases h.shape with hs | ⟨rest, hs⟩
    · simp only [serial, hs]
      have hsub : (staleOf now s).Sublist s.pending.fills := List.filter_sublist.trans List.filter_sublist
      refine ⟨Or.inr ⟨_, rfl⟩, h.known, fun x hx => ?_, (hsub.map _).nodup s.pending.ids_nodup⟩
      have hx' := hsub.subset hx
      exact ⟨s.pending.fills_key hx', List.mem_map.mpr ⟨x, hx', rfl⟩⟩
    · simp only [serial, hs]
      exact h
  | sweepNext now w =>
    rcases h.shape with hs | ⟨rest, hs⟩
    · simp only [serial, hs]
      exact h
    · cases rest with
      | nil =>
        simp only [serial, hs]
        exact ⟨Or.inl rfl, h.known, by simp [copies], by simp [copies]⟩
      | cons x rest =>
        simp only [serial, hs]
        have hd := h.distinct
        rw [hs] at hd
        simp only [copies, List.map_cons, List.nodup_cons] at hd
        refine ⟨Or.inr ⟨_, rfl⟩, fun id hid => h.known id ((pending_settle now w _ s id).mp hid).1,
          fun y hy => ?_, hd.2⟩
        obtain ⟨hkey, hpend⟩ := h.copied y (by rw [hs]; exact List.mem_cons_of_mem _ hy)
        refine ⟨hkey, (pending_settle now w _ s y.1).mpr ⟨hpend, fun _ hin => ?_⟩⟩
        have he : y.1 = x.1 := List.mem_singleton.mp hin
        exact hd.1 (he ▸ List.mem_map.mpr ⟨y, hy, rfl⟩)

/-- The count is about the hashes, the ledger and the credits, not about who is at work. -/
theorem Counted.congr {all : Orders} {hash : Totals} {s t : Broker} (h : Counted all hash s) (hpending : t.pending = s.pending)
    (hcredited : t.credited = s.credited) (hledger : t.ledger = s.ledger) (hhash : t.hash = s.hash) : Counted all hash t := by
  obtain ⟨⟩ := t
  subst hpending hcredited hledger hhash
  exact ⟨h.removed, h.pending, h.hash⟩

theorem serial_counted {all : Orders} {hash : Totals} (s : Broker) (e : Event) (h : Serial all s) (hq : Counted all hash s) :
    Counted all hash (serial s e) ↔ Whole s e := by
  cases e with
  | putMeta matchID m =>
    simp only [Whole, iff_true]
    exact hq.congr rfl rfl rfl rfl
  | frame f now w =>
    rcases h.shape with hs | ⟨rest, hs⟩
    · simp only [serial, hs, Whole, isIdle, forall_true_left]
      cases hb : feedBatch s.pending f with
      | none => simpa using hq
      | some b =>
        obtain ⟨hk, hn, hne, hsub⟩ := feedBatch_spec hb
        rw [settleBatch_counted hq h.known hk hn hne hsub]
        simp
    · simpa [serial, hs, Whole, isIdle] using hq
  | sweep now =>
    rcases h.shape with hs | ⟨rest, hs⟩
    · simp only [serial, hs, Whole, iff_true]
      exact hq.congr rfl rfl rfl rfl
    · simpa [serial, hs, Whole] using hq
  | sweepNext now w =>
    rcases h.shape with hs | ⟨rest, hs⟩
    · simpa [serial, hs, Whole, nextStale] using hq
    · cases rest with
      | nil =>
        simp only [serial, hs, Whole, nextStale, List.head?_nil]
        exact ⟨fun _ x hx => absurd hx (by simp), fun _ => hq.congr rfl rfl rfl rfl⟩
      | cons x rest =>
        obtain ⟨hkey, hpend⟩ := h.copied x (by rw [hs]; exact List.mem_cons_self)
        obtain ⟨hk, hids⟩ := sweepBatch_spec hkey (metaOf s x.2.matchID)
        have hone := settleBatch_counted hq h.known hk (by rw [hids]; simp) (by rw [hids]; simp)
          (by rw [hids]; simpa using hpend) now w
        have hcount : Counted all hash (serial s (.sweepNext now w)) ↔
            Counted all hash (settleBatch now w (sweepBatch x (metaOf s x.2.matchID)) s) := by
          simp only [serial, hs]
          exact ⟨fun c => c.congr rfl rfl rfl rfl, fun c => c.congr rfl rfl rfl rfl⟩
        rw [hcount, hone]
        simp [Whole, hs, nextStale]

/-- In every state between the batches of a run every order is counted right, iff every
    batch is written as a whole or not at all. -/
theorem counted_once_iff (pending : Orders) (metas : Table String MatchMeta) (hash : Totals) (es : List Event) :
    (∀ pre, pre <+: es → Counted pending hash (pre.foldl serial (start pending metas hash))) ↔
      Meets serial Whole (start pending metas hash) es := by
  refine always_iff serial Whole (Serial pending) (Counted pending hash) (serial_inv pending)
    (fun s e h hq => serial_counted s e h hq) es ?_ ?_
  · exact ⟨Or.inl rfl, fun id h => h, by simp [start, copies], by simp [start, copies]⟩
  · refine ⟨fun id hid hno => absurd hid hno, ?_, ?_⟩
    · simp [start, creditedIDs, recordedIDs]
    · simp [start]

/-- The FULLTIME frame of m1 arrives twice, and the HDEL of its first batch fails. -/
def deleteFails : List Event :=
  [.frame ⟨"FULLTIME", "m1", some (1, 0)⟩ fourHours ⟨true, fun _ => true, false⟩,
    .frame ⟨"FULLTIME", "m1", some (1, 0)⟩ fourHours allWrites]

theorem a_failed_delete_counts_twice :
    ¬ ∀ pre, pre <+: deleteFails → Counted twoOrders 0 (pre.foldl serial (start twoOrders longOver 0)) := fun h => by
  have := (h deleteFails (List.prefix_refl _)).removed "paper_1" (by decide +kernel) (by decide +kernel)
  exact absurd this (by decide +kernel)

end CasuyaLive.Execution.Paper
