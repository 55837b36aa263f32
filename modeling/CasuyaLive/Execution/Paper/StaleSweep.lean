/-
  CasuyaLive.Execution.Paper.StaleSweep — one run of `sweepStale` with nobody else at work
  (execution-engine-go, internal/broker/interfaces.go), over whatever the order hash and the
  match hashes hold.

  A match hash is the table of texts that HGETALL answers, and `readMeta` what the sweep
  parses of it. An order may sit under an id that is not its own: it is deleted by the id it
  was found under and recorded by its own. Go ranges over the stale ids in no fixed order,
  which is `visit`. As in `Broker`, the ledger's MAXLEN is left out. Over keyed orders the
  run is the one the goroutine of `Broker` makes when nothing comes between
  (`sweep_simulates`).
  - `resolves_iff`: the run settles the orders of the matches that are 180 minutes old, as
    the match hash tells their result, and touches nothing else, iff no kickoff lies so far
    ahead that `time.Unix` wraps it into the past.
  - `a_kickoff_out_of_range_is_stale`: such a kickoff settles the order at once.
-/

import CasuyaLive.Lib.Numeral
import CasuyaLive.Execution.Paper.Failures

namespace CasuyaLive.Execution.Paper

open CasuyaLive.Lib

abbrev Fields := Table String String

/-- A field of the answer, "" when it is not there. -/
def field (h : Fields) (name : String) : String := (h.get? name).getD ""

/-- `strconv.ParseInt` in base 10, the error dropped. -/
def parseInt (s : String) : Int := (Text.atoi s).1

/-- `strconv.ParseFloat`, the error dropped: the infinity of a number out of range stays. -/
def parseScore (s : String) : Float64 := (Text.parseFloat s).1

def readMeta (h : Fields) : MatchMeta :=
  { kickoff := parseInt (field h "kickoff")
    receivedAt := parseInt (field h "received_at")
    clock := field h "clock"
    scoreHome := parseScore (field h "score_home")
    scoreAway := parseScore (field h "score_away") }

structure Store where
  orders : Table String (Option Fill)
  metas : Table String Fields
  hash : Totals
  updatedCycle : Nat
  ledger : List Entry
  session : Totals
  cycle : Nat
  published : List Snapshot

def fieldsOf (s : Store) (matchID : String) : Fields := (s.metas.get? matchID).getD Table.empty

/-- The first pass, at one match hash. -/
def overdue (now : Int) (h : Fields) : Bool :=
  if field h "kickoff" ≠ "" ∧ 0 < parseInt (field h "kickoff") ∧
      staleAfter < now - Calendar.timeUnix (parseInt (field h "kickoff")) * 1000000000 then true
  else if field h "received_at" = "" then false
  else 0 < parseInt (field h "received_at") && staleAfter < now - parseInt (field h "received_at") * 1000000

def staleIDs (now : Int) (s : Store) : List String :=
  (s.orders.entries.filter fun x =>
    match x.2 with
    | none => false
    | some f => f.matchID != "" && overdue now (fieldsOf s f.matchID)).map (·.1)

/-- One order, from its grading to its HDEL. -/
def resolve (now : Int) (s : Store) (x : String × Fill) : Store :=
  let b := sweepBatch x (readMeta (fieldsOf s x.2.matchID))
  let cycle := s.cycle + 1
  let session := s.session + b.totals
  { s with
    orders := s.orders.eraseAll b.ids
    hash := s.hash + b.totals
    updatedCycle := cycle
    ledger := s.ledger ++ b.entries now
    session := session
    cycle := cycle
    published := s.published ++ [⟨cycle, b.matchID, b.home.toInt, b.away.toInt, b.settled, session⟩] }

/-- The second pass decodes the order again, from the answer of the first. -/
def found (entries : Table String (Option Fill)) (id : String) : Option (String × Fill) :=
  match entries.get? id with
  | some (some f) => if f.matchID = "" then none else some (id, f)
  | _ => none

def settleStale (now : Int) (entries : Table String (Option Fill)) (s : Store) (id : String) : Store :=
  match found entries id with
  | some x => resolve now s x
  | none => s

def sweepStale (now : Int) (visit : List String) (s : Store) : Store := visit.foldl (settleStale now s.orders) s

/-! ## The orders it settles -/

theorem isStale_iff (now : Int) (m : MatchMeta) : isStale now m = true ↔
    (0 < m.kickoff ∧ staleAfter < now - Calendar.timeUnix m.kickoff * 1000000000) ∨
      (0 < m.receivedAt ∧ staleAfter < now - m.receivedAt * 1000000) := by
  simp only [isStale, Bool.or_eq_true, Bool.and_eq_true, decide_eq_true_eq]

theorem overdue_eq (now : Int) (h : Fields) : overdue now h = isStale now (readMeta h) := by
  have h0 : parseInt "" = 0 := by decide +kernel
  rw [Bool.eq_iff_iff, isStale_iff, overdue]
  by_cases hk : field h "kickoff" = "" <;> by_cases hr : field h "received_at" = "" <;> simp [readMeta, hk, hr, h0]

/-- The orders that decode, name a match and pass a test of its hash. -/
def due (p : MatchMeta → Bool) (s : Store) : List (String × Fill) :=
  s.orders.entries.filterMap fun x =>
    match x.2 with
    | none => none
    | some f => if f.matchID != "" && p (readMeta (fieldsOf s f.matchID)) then some (x.1, f) else none

theorem mem_due (p : MatchMeta → Bool) (s : Store) (id : String) (f : Fill) :
    (id, f) ∈ due p s ↔ s.orders.get? id = some (some f) ∧ f.matchID ≠ "" ∧ p (readMeta (fieldsOf s f.matchID)) = true := by
  rw [due, List.mem_filterMap, ← Table.mem_iff]
  constructor
  · intro hx
    obtain ⟨⟨k, v⟩, hm, hv⟩ := hx
    cases v with
    | none => cases hv
    | some g =>
      simp only at hv
      split at hv
      · rename_i hp
        cases hv
        simpa [hm] using hp
      · cases hv
  · intro hx
    obtain ⟨hm, hne, hp⟩ := hx
    exact ⟨(id, some f), hm, by simp [hne, hp]⟩

theorem mem_due_ids (p : MatchMeta → Bool) (s : Store) (id : String) :
    id ∈ (due p s).map (·.1) ↔
      ∃ f, s.orders.get? id = some (some f) ∧ f.matchID ≠ "" ∧ p (readMeta (fieldsOf s f.matchID)) = true := by
  rw [List.mem_map]
  constructor
  · intro hx
    obtain ⟨⟨k, f⟩, hm, rfl⟩ := hx
    exact ⟨f, (mem_due p s k f).mp hm⟩
  · intro hx
    obtain ⟨f, hf⟩ := hx
    exact ⟨(id, f), (mem_due p s id f).mpr hf, rfl⟩

theorem found_staleIDs (now : Int) (s : Store) : (staleIDs now s).filterMap (found s.orders) = due (isStale now) s := by
  rw [staleIDs, List.filterMap_map, List.filterMap_filter, due]
  apply List.filterMap_congr
  intro x hx
  obtain ⟨id, v⟩ := x
  have hget := (s.orders.mem_iff id v).mp hx
  cases v with
  | none => rfl
  | some f =>
    by_cases hm : f.matchID = "" <;> simp [Function.comp, found, hget, hm, overdue_eq]

theorem sweepStale_foldl (now : Int) (s : Store) (visit : List String) :
    sweepStale now visit s = (visit.filterMap (found s.orders)).foldl (resolve now) s := by
  have hf : settleStale now s.orders = fun s' id => match found s.orders id with
      | some x => resolve now s' x
      | none => s' := rfl
  rw [List.foldl_filterMap, sweepStale, hf]
  congr 1
  funext s' id
  cases found s.orders id <;> rfl

/-- The run settles the stale orders, in some order. -/
theorem sweepStale_eq (now : Int) (s : Store) {visit : List String} (h : visit.Perm (staleIDs now s)) :
    ∃ l : List (String × Fill), l.Perm (due (isStale now) s) ∧ sweepStale now visit s = l.foldl (resolve now) s := by
  refine ⟨visit.filterMap (found s.orders), ?_, sweepStale_foldl now s visit⟩
  rw [← found_staleIDs]
  exact h.filterMap _

/-! ## What a settled order leaves -/

/-- The ledger entry of an order that waits for a match long past: graded if the match hash
    holds a full-time frame, else returned. -/
def verdict (now : Int) (s : Store) (x : String × Fill) : Entry :=
  let m := readMeta (fieldsOf s x.2.matchID)
  let graded := outcomeFor x.2.side m.scoreHome m.scoreAway
  { orderID := x.2.orderID
    market := x.2.market
    side := x.2.side
    odds := x.2.odds
    stake := x.2.stake
    result := if m.clock = "FULLTIME" then graded else .unresolved
    pnl := if m.clock = "FULLTIME" then pnlFor graded x.2.stake x.2.odds else 0
    source := "stale_sweep"
    verified := m.clock = "FULLTIME"
    matchID := x.2.matchID
    scoreHome := m.scoreHome
    scoreAway := m.scoreAway
    settledAt := now / 1000000 }

/-- What it adds to the totals: an order without a result is one void and no money. -/
def share (now : Int) (s : Store) (x : String × Fill) : Totals :=
  if (readMeta (fieldsOf s x.2.matchID)).clock = "FULLTIME" then delta (verdict now s x).toSettledOrder else ⟨0, 0, 0, 1⟩

theorem sweepBatch_entries (now : Int) (s : Store) (x : String × Fill) :
    (sweepBatch x (readMeta (fieldsOf s x.2.matchID))).entries now = [verdict now s x] := by
  by_cases h : (readMeta (fieldsOf s x.2.matchID)).clock = "FULLTIME" <;>
    simp [Batch.entries, sweepBatch, settleOrders, settleOrder, verdict, Fill.order, h, unresolved_pnl]

theorem sweepBatch_totals (now : Int) (s : Store) (x : String × Fill) :
    (sweepBatch x (readMeta (fieldsOf s x.2.matchID))).totals = share now s x := by
  by_cases h : (readMeta (fieldsOf s x.2.matchID)).clock = "FULLTIME"
  · simp [Batch.totals, settlementTotals_eq, sweepBatch, settleOrders, settleOrder, share, verdict, Fill.order, h]
  · simp [Batch.totals, settlementTotals_eq, sweepBatch, settleOrders, settleOrder, share, h, delta, unresolved_pnl]

theorem resolve_orders (now : Int) (s : Store) (x : String × Fill) : (resolve now s x).orders = s.orders.eraseAll [x.1] := rfl

theorem resolve_metas (now : Int) (s : Store) (x : String × Fill) : (resolve now s x).metas = s.metas := rfl

theorem resolve_ledger (now : Int) (s : Store) (x : String × Fill) : (resolve now s x).ledger = s.ledger ++ [verdict now s x] := by
  rw [← sweepBatch_entries]
  rfl

theorem resolve_hash (now : Int) (s : Store) (x : String × Fill) : (resolve now s x).hash = s.hash + share now s x := by
  rw [← sweepBatch_totals]
  rfl

theorem resolve_session (now : Int) (s : Store) (x : String × Fill) :
    (resolve now s x).session = s.session + share now s x := by
  rw [← sweepBatch_totals]
  rfl

/-- Exactly the orders `l` were resolved. -/
structure Resolved (now : Int) (s : Store) (l : List (String × Fill)) (s' : Store) : Prop where
  orders : s'.orders = s.orders.eraseAll (l.map (·.1))
  metas : s'.metas = s.metas
  ledger : s'.ledger = s.ledger ++ l.map (verdict now s)
  hash : s'.hash = s.hash + (l.map (share now s)).sum
  session : s'.session = s.session + (l.map (share now s)).sum

theorem foldl_resolved (now : Int) (l : List (String × Fill)) (s : Store) : Resolved now s l (l.foldl (resolve now) s) := by
  induction l generalizing s with
  | nil => exact ⟨by simp, rfl, by simp, by simp, by simp⟩
  | cons x l ih =>
    -- the verdicts read the match hashes alone, which no order changes
    have hverdict : verdict now (resolve now s x) = verdict now s := rfl
    have hshare : share now (resolve now s x) = share now s := rfl
    obtain ⟨h1, h2, h3, h4, h5⟩ := ih (resolve now s x)
    rw [hverdict, resolve_ledger] at h3
    rw [hshare, resolve_hash] at h4
    rw [hshare, resolve_session] at h5
    refine ⟨?_, h2.trans (resolve_metas now s x), ?_, ?_, ?_⟩
    · rw [List.foldl_cons, h1, resolve_orders, Table.eraseAll_eraseAll]
      rfl
    · rw [List.foldl_cons, h3, List.map_cons, List.append_assoc, List.singleton_append]
    · rw [List.foldl_cons, h4, List.map_cons, List.sum_cons, add_assoc]
    · rw [List.foldl_cons, h5, List.map_cons, List.sum_cons, add_assoc]

/-! ## The same run, in the goroutine -/

/-- One store, read by the broker with its interleavings. -/
structure Same (b : Broker) (s : Store) : Prop where
  orders : s.orders = b.pending.table
  metas : ∀ id, readMeta (fieldsOf s id) = metaOf b id
  hash : s.hash = b.hash
  updatedCycle : s.updatedCycle = b.updatedCycle
  ledger : s.ledger = b.ledger
  session : s.session = b.session
  cycle : s.cycle = b.cycle
  published : s.published = b.published

theorem same_settle {b : Broker} {s : Store} (h : Same b s) (now : Int) (x : String × Fill) :
    Same (settleBatch now allWrites (sweepBatch x (metaOf b x.2.matchID)) b) (resolve now s x) := by
  obtain ⟨h1, h2, h3, _, h5, h6, h7, h8⟩ := h
  refine ⟨?_, h2, ?_, ?_, ?_, ?_, ?_, ?_⟩ <;>
    simp [resolve, settleBatch, allWrites, Orders.remove, h1, h2, h3, h5, h6, h7, h8]

theorem same_foldl (now : Int) (l : List (String × Fill)) {b : Broker} {s : Store} (hs : b.sweep = .settling l) (h : Same b s) :
    Same ((l.map fun _ => Event.sweepNext now allWrites).foldl serial b) (l.foldl (resolve now) s) := by
  induction l generalizing b s with
  | nil => exact h
  | cons x l ih =>
    have hstep : serial b (.sweepNext now allWrites) =
        { settleBatch now allWrites (sweepBatch x (metaOf b x.2.matchID)) b with sweep := .settling l } := by
      simp only [serial, hs]
    rw [List.map_cons, List.foldl_cons, List.foldl_cons, hstep]
    refine ih rfl ?_
    have hx := same_settle h now x
    exact ⟨hx.orders, hx.metas, hx.hash, hx.updatedCycle, hx.ledger, hx.session, hx.cycle, hx.published⟩

theorem staleOf_eq {b : Broker} {s : Store} (h : Same b s) (now : Int) : staleOf now b = due (isStale now) s := by
  rw [staleOf, Orders.fills, List.filter_filter, List.filter_filterMap, due, h.orders]
  apply List.filterMap_congr
  intro x _
  obtain ⟨id, v⟩ := x
  cases v with
  | none => rfl
  | some f =>
    simp only [h.metas, Option.map_some]
    by_cases hm : f.matchID = "" <;> by_cases hp : isStale now (metaOf b f.matchID) = true <;> simp [hm, hp, Option.filter]

/-- A sweep that nothing interrupts, order by order. -/
theorem sweep_simulates {b : Broker} {s : Store} (h : Same b s) (hidle : b.sweep = .idle) (now : Int) :
    Same ((.sweep now :: (staleOf now b).map fun _ => Event.sweepNext now allWrites).foldl serial b)
      (sweepStale now (staleIDs now s) s) := by
  have hstep : serial b (.sweep now) = { b with sweep := .settling (staleOf now b) } := by
    simp only [serial, hidle]
  rw [List.foldl_cons, hstep, sweepStale_foldl, found_staleIDs, ← staleOf_eq h now]
  exact same_foldl now _ rfl ⟨h.orders, h.metas, h.hash, h.updatedCycle, h.ledger, h.session, h.cycle, h.published⟩

/-! ## Long past -/

/-- 180 minutes after the kickoff, or after the last frame. -/
def LongPast (now : Int) (m : MatchMeta) : Prop :=
  (0 < m.kickoff ∧ m.kickoff * 1000000000 + staleAfter < now) ∨ (0 < m.receivedAt ∧ m.receivedAt * 1000000 + staleAfter < now)

instance (now : Int) (m : MatchMeta) : Decidable (LongPast now m) := inferInstanceAs (Decidable (_ ∨ _))

/-- A kickoff ahead of what a Go time can hold, whose wrapped instant is 180 minutes old, in
    a match with no frame of that age. -/
def Wraps (now : Int) (m : MatchMeta) : Prop :=
  2 ^ 63 - 62135596800 ≤ m.kickoff ∧ (m.kickoff - 2 ^ 64) * 1000000000 + staleAfter < now ∧
    now ≤ m.kickoff * 1000000000 + staleAfter ∧ ¬(0 < m.receivedAt ∧ m.receivedAt * 1000000 + staleAfter < now)

theorem isStale_iff_longPast (now : Int) (h : Fields) :
    (isStale now (readMeta h) = true ↔ LongPast now (readMeta h)) ↔ ¬Wraps now (readMeta h) := by
  have hlt : (readMeta h).kickoff < 2 ^ 63 := Text.atoi_lt _
  rw [isStale_iff, LongPast, Wraps]
  generalize readMeta h = m at hlt
  by_cases hw : 2 ^ 63 - 62135596800 ≤ m.kickoff
  · rw [Calendar.timeUnix_of_wrap hw hlt]
    omega
  · by_cases hk : 0 < m.kickoff
    · rw [Calendar.timeUnix_of_le (by omega) (by omega)]
      omega
    · omega

/-! ## The run -/

/-- The orders of the matches that are long past, and no others, have the verdict of their
    match hash: they are gone, recorded once each and counted. -/
structure Resolves (now : Int) (s s' : Store) : Prop where
  orders : s'.orders = s.orders.eraseAll ((due (LongPast now ·) s).map (·.1))
  metas : s'.metas = s.metas
  ledger : ∃ l : List (String × Fill), l.Perm (due (LongPast now ·) s) ∧ s'.ledger = s.ledger ++ l.map (verdict now s)
  hash : s'.hash = s.hash + ((due (LongPast now ·) s).map (share now s)).sum
  session : s'.session = s.session + ((due (LongPast now ·) s).map (share now s)).sum

theorem due_congr {p q : MatchMeta → Bool} {s : Store} (h : ∀ id f, s.orders.get? id = some (some f) → f.matchID ≠ "" →
    p (readMeta (fieldsOf s f.matchID)) = q (readMeta (fieldsOf s f.matchID))) : due p s = due q s := by
  apply List.filterMap_congr
  intro x hx
  obtain ⟨id, v⟩ := x
  have hget := (s.orders.mem_iff id v).mp hx
  cases v with
  | none => rfl
  | some f =>
    by_cases hm : f.matchID = ""
    · simp [hm]
    · simp [h id f hget hm]

/-- In whatever order Go takes the stale ids. -/
theorem resolves_iff (now : Int) (s : Store) (visit : List String) (h : visit.Perm (staleIDs now s)) :
    Resolves now s (sweepStale now visit s) ↔
      ∀ id f, s.orders.get? id = some (some f) → f.matchID ≠ "" → ¬Wraps now (readMeta (fieldsOf s f.matchID)) := by
  obtain ⟨l, hl, hrun⟩ := sweepStale_eq now s h
  obtain ⟨h1, h2, h3, h4, h5⟩ := foldl_resolved now l s
  rw [← hrun] at h1 h2 h3 h4 h5
  have hsame : ∀ f : Fill, (isStale now (readMeta (fieldsOf s f.matchID)) = true ↔ LongPast now (readMeta (fieldsOf s f.matchID))) ↔
      ¬Wraps now (readMeta (fieldsOf s f.matchID)) := fun f => isStale_iff_longPast now _
  constructor
  · intro hr id f hget hm
    rw [← hsame]
    -- the order is gone exactly if the sweep takes it for stale, and exactly if it is long past
    have hgone : (s.orders.eraseAll (l.map (·.1))).get? id = (s.orders.eraseAll ((due (LongPast now ·) s).map (·.1))).get? id := by
      rw [← h1, hr.orders]
    have hstale : id ∈ l.map (·.1) ↔ isStale now (readMeta (fieldsOf s f.matchID)) = true := by
      rw [(hl.map _).mem_iff, mem_due_ids]
      simp [hget, hm]
    have hpast : id ∈ (due (LongPast now ·) s).map (·.1) ↔ LongPast now (readMeta (fieldsOf s f.matchID)) := by
      rw [mem_due_ids]
      simp [hget, hm]
    rw [Table.get?_eraseAll, Table.get?_eraseAll, hget] at hgone
    by_cases hs : isStale now (readMeta (fieldsOf s f.matchID)) = true <;>
      by_cases hp : LongPast now (readMeta (fieldsOf s f.matchID)) <;> simp_all
  · intro hno
    have hdue : due (isStale now) s = due (LongPast now ·) s := by
      apply due_congr
      intro id f hget hm
      rw [Bool.eq_iff_iff, decide_eq_true_eq]
      exact (hsame f).mpr (hno id f hget hm)
    rw [hdue] at hl
    refine ⟨?_, h2, ⟨l, hl, h3⟩, ?_, ?_⟩
    · rw [h1]
      exact Table.eraseAll_congr _ fun k => (hl.map _).mem_iff
    · rw [h4, (hl.map _).sum_eq]
    · rw [h5, (hl.map _).sum_eq]

/-- A home bet on match m2 that sits under another id. -/
def homeBet : Fill := ⟨"paper_7", "FULLTIME_1X2", "home", 2, 10, "m2", 0⟩

def pendingOn (h : Fields) : Store :=
  { orders := Table.empty.set "paper_1" (some homeBet), metas := Table.empty.set "m2" h, hash := 0, updatedCycle := 0
    ledger := [], session := 0, cycle := 0, published := [] }

/-- The feed last wrote 2-1 at full time, four hours ago. -/
def finished : Store :=
  pendingOn (((Table.empty.set "received_at" "1").set "clock" "FULLTIME").set "score_home" "2" |>.set "score_away" "1")

theorem resolves_finished : ["paper_1"].Perm (staleIDs fourHours finished) ∧
    (Resolves fourHours finished (sweepStale fourHours ["paper_1"] finished) ↔
      ∀ id f, finished.orders.get? id = some (some f) → f.matchID ≠ "" →
        ¬Wraps fourHours (readMeta (fieldsOf finished f.matchID))) :=
  ⟨by decide +kernel, resolves_iff fourHours finished ["paper_1"] (by decide +kernel)⟩

/-- A kickoff that no Go time holds. -/
def neverStarts : Store := pendingOn (Table.empty.set "kickoff" "9223372036854775807")

theorem a_kickoff_out_of_range_is_stale : ["paper_1"].Perm (staleIDs fourHours neverStarts) ∧
    ¬Resolves fourHours neverStarts (sweepStale fourHours ["paper_1"] neverStarts) := by
  refine ⟨by decide +kernel, fun h => ?_⟩
  have hhash := h.hash
  revert hhash
  decide +kernel

end CasuyaLive.Execution.Paper
