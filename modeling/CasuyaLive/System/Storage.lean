/-
  CasuyaLive.System.Storage — the match hashes of the ingestor under the sweep of the executor
  (data-ingestion-go, internal/cache/redis.go: `PublishMatch`; execution-engine-go,
  internal/broker/interfaces.go: `sweepStale`).

  The ingestor prints kickoff, receive time, clock and score into a match hash that expires
  after a day of silence; the sweep parses them back. Redis and the executor have clocks of
  their own. `readMeta_latest`: at any time of any run the sweep reads the match's last frame,
  or nothing once that is a day old.

  `sweep_settles_by_last_frame`: so a run settles exactly the orders whose match has a last
  frame that is 180 minutes past its kickoff or its arrival, by that frame's score if it is a
  full-time frame and as unresolved if not. An order of a match silent for a day stays.
-/

import CasuyaLive.Execution.Paper.StaleSweep
import CasuyaLive.Ingest.Cache

namespace CasuyaLive.System

open CasuyaLive.Lib CasuyaLive.Execution CasuyaLive.Execution.Paper CasuyaLive.Ingest CasuyaLive.Ingest.Stream

variable (render : Match → String) (shortest : ℚ → String)

/-- HGETALL of the match hashes, at the time `t` of Redis. -/
def ReadsAt (t : Int) (r : Cache.Redis) (s : Paper.Store) : Prop :=
  ∀ id, fieldsOf s id = (Lease.read t (r.hashes.get? (Cache.hashKeyPrefix ++ id))).getD Table.empty

/-- What the sweep needs of a frame. -/
def metaOfMatch (m : Match) : MatchMeta :=
  { kickoff := Cache.unix m.kickoff
    receivedAt := Cache.unixMilli m.receivedAt
    clock := m.clock
    scoreHome := m.score.home
    scoreAway := m.score.away }

theorem field_latest {t : Int} {es : List Cache.Event} {s : Paper.Store}
    (h : ReadsAt t (after (Cache.step render shortest) Cache.new es) s) (id : String) {name : String}
    (hname : ∀ m, ((Cache.hashFields shortest m).get? name).isSome) :
    field (fieldsOf s id) name =
      ((Cache.latest render es t id).bind fun m => (Cache.hashFields shortest m).get? name).getD "" := by
  have hread := Cache.hget_latest render shortest es t id name hname
  rw [← hread, field, h id, Cache.hget]
  cases Lease.read t ((after (Cache.step render shortest) Cache.new es).hashes.get? (Cache.hashKeyPrefix ++ id)) <;> rfl

/-- The five fields the sweep reads. -/
structure Prints (fields : Table String String) (m : Match) : Prop where
  kickoff : fields.get? "kickoff" = some (Text.itoa (Cache.unix m.kickoff))
  receivedAt : fields.get? "received_at" = some (Text.itoa (Cache.unixMilli m.receivedAt))
  clock : fields.get? "clock" = some m.clock
  scoreHome : fields.get? "score_home" = some (Text.itoa m.score.home)
  scoreAway : fields.get? "score_away" = some (Text.itoa m.score.away)

theorem hashFields_prints (m : Match) : Prints (Cache.hashFields shortest m) m := by
  refine ⟨?_, ?_, ?_, ?_, ?_⟩ <;>
    rw [Cache.hashFields_base shortest m (by decide) (by decide)] <;> simp [Cache.baseFields]

theorem parseInt_itoa {n : Int} (hlo : -2 ^ 63 ≤ n) (hhi : n < 2 ^ 63) : parseInt (Text.itoa n) = n := by
  rw [parseInt, Text.atoi_itoa hlo hhi]

theorem parseScore_itoa (n : Int) : parseScore (Text.itoa n) = n := by
  rw [parseScore, Text.parseFloat_itoa]
  rfl

/-- The sweep reads the match's last frame. -/
theorem readMeta_latest {t : Int} {es : List Cache.Event} {s : Paper.Store}
    (h : ReadsAt t (after (Cache.step render shortest) Cache.new es) s) (id : String) :
    readMeta (fieldsOf s id) = ((Cache.latest render es t id).map metaOfMatch).getD noMeta := by
  have hread : ∀ name, (∀ m, ((Cache.hashFields shortest m).get? name).isSome) → field (fieldsOf s id) name =
      ((Cache.latest render es t id).bind fun m => (Cache.hashFields shortest m).get? name).getD "" :=
    fun name hname => field_latest render shortest h id hname
  rw [readMeta, hread "kickoff" fun m => by rw [(hashFields_prints shortest m).kickoff]; rfl,
    hread "received_at" fun m => by rw [(hashFields_prints shortest m).receivedAt]; rfl,
    hread "clock" fun m => by rw [(hashFields_prints shortest m).clock]; rfl,
    hread "score_home" fun m => by rw [(hashFields_prints shortest m).scoreHome]; rfl,
    hread "score_away" fun m => by rw [(hashFields_prints shortest m).scoreAway]; rfl]
  cases hm : Cache.latest render es t id with
  | none =>
    have hempty : (⟨parseInt "", parseInt "", "", parseScore "", parseScore ""⟩ : MatchMeta) = noMeta := by decide +kernel
    exact hempty
  | some m =>
    obtain ⟨hk, hr⟩ := Cache.latest_inYears render hm
    obtain ⟨h1, h2, h3, h4, h5⟩ := hashFields_prints shortest m
    simp only [Cache.inYears, Bool.and_eq_true, decide_eq_true_eq] at hk hr
    simp only [Cache.unix] at hk hr
    simp only [Option.bind_some, h1, h2, h3, h4, h5, Option.getD_some, Option.map_some, parseScore_itoa]
    rw [parseInt_itoa (by simp only [Cache.unix]; omega) (by simp only [Cache.unix]; omega),
      parseInt_itoa (by simp only [Cache.unixMilli]; omega) (by simp only [Cache.unixMilli]; omega)]
    rfl

/-! ## What the sweep settles -/

/-- 180 minutes after the kickoff of the frame, or after its arrival. -/
def Past (now : Int) (m : Match) : Prop :=
  (0 < Cache.unix m.kickoff ∧ Cache.unix m.kickoff * 1000000000 + staleAfter < now) ∨
    (0 < Cache.unixMilli m.receivedAt ∧ Cache.unixMilli m.receivedAt * 1000000 + staleAfter < now)

instance (now : Int) (m : Match) : Decidable (Past now m) := inferInstanceAs (Decidable (_ ∨ _))

/-- The orders that decode and name a match whose last frame is past, with that frame. -/
def pastOrders (now t : Int) (es : List Cache.Event) (s : Paper.Store) : List (String × Fill × Match) :=
  s.orders.entries.filterMap fun x =>
    match x.2 with
    | none => none
    | some f =>
      if f.matchID = "" then none
      else ((Cache.latest render es t f.matchID).filter (Past now ·)).map fun m => (x.1, f, m)

/-- The ledger entry of an order whose match was last seen in the frame. -/
def closing (now : Int) (f : Fill) (m : Match) : Entry :=
  let graded := outcomeFor f.side m.score.home m.score.away
  { orderID := f.orderID
    market := f.market
    side := f.side
    odds := f.odds
    stake := f.stake
    result := if m.clock = fulltime then graded else .unresolved
    pnl := if m.clock = fulltime then pnlFor graded f.stake f.odds else 0
    source := "stale_sweep"
    verified := m.clock = fulltime
    matchID := f.matchID
    scoreHome := m.score.home
    scoreAway := m.score.away
    settledAt := now / 1000000 }

def closingTotals (now : Int) (f : Fill) (m : Match) : Totals :=
  if m.clock = fulltime then delta (closing now f m).toSettledOrder else ⟨0, 0, 0, 1⟩

/-- The orders `l` are settled, each by the frame it comes with, and nothing else has changed. -/
structure SettledBy (now : Int) (s : Paper.Store) (l : List (String × Fill × Match)) (s' : Paper.Store) : Prop where
  orders : s'.orders = s.orders.eraseAll (l.map (·.1))
  metas : s'.metas = s.metas
  ledger : ∃ entries, entries.Perm (l.map fun x => closing now x.2.1 x.2.2) ∧ s'.ledger = s.ledger ++ entries
  hash : s'.hash = s.hash + (l.map fun x => closingTotals now x.2.1 x.2.2).sum
  session : s'.session = s.session + (l.map fun x => closingTotals now x.2.1 x.2.2).sum

section

variable {render shortest} {t : Int} {es : List Cache.Event} {s : Paper.Store}

theorem isStale_metaOfMatch (now : Int) {m : Match} (h : Cache.inYears m.kickoff = true) :
    isStale now (metaOfMatch m) = true ↔ Past now m := by
  simp only [Cache.inYears, Bool.and_eq_true, decide_eq_true_eq] at h
  rw [isStale_iff, Past]
  simp only [metaOfMatch]
  by_cases hk : 0 < Cache.unix m.kickoff
  · rw [Calendar.timeUnix_of_le (by omega) (by omega)]
    omega
  · simp only [hk, false_and, false_or]
    omega

theorem not_isStale_noMeta (now : Int) : isStale now noMeta = false := by
  simp [isStale, noMeta]

theorem due_eq (h : ReadsAt t (after (Cache.step render shortest) Cache.new es) s) (now : Int) :
    due (isStale now) s = (pastOrders render now t es s).map fun x => (x.1, x.2.1) := by
  rw [due, pastOrders, List.map_filterMap]
  apply List.filterMap_congr
  intro x _
  obtain ⟨id, v⟩ := x
  cases v with
  | none => rfl
  | some f =>
    simp only [readMeta_latest render shortest h]
    by_cases hm : f.matchID = ""
    · simp [hm]
    · cases hlast : Cache.latest render es t f.matchID with
      | none => simp [hm, not_isStale_noMeta]
      | some m =>
        have hstale := isStale_metaOfMatch now (Cache.latest_inYears render hlast).1
        by_cases hp : Past now m <;> simp [hm, hp, hstale, Option.filter]

/-- The verdict of the sweep is the last frame's. -/
theorem verdict_eq (h : ReadsAt t (after (Cache.step render shortest) Cache.new es) s) (now : Int) (id : String) {f : Fill}
    {m : Match} (hm : Cache.latest render es t f.matchID = some m) : verdict now s (id, f) = closing now f m := by
  have hread := readMeta_latest render shortest h f.matchID
  rw [hm] at hread
  simp only [verdict, hread]
  rfl

theorem mem_pastOrders {now : Int} {x : String × Fill × Match} (h : x ∈ pastOrders render now t es s) :
    Cache.latest render es t x.2.1.matchID = some x.2.2 := by
  obtain ⟨⟨id, v⟩, -, hx⟩ := List.mem_filterMap.mp h
  cases v with
  | none => cases hx
  | some f =>
    simp only at hx
    split at hx
    · cases hx
    · obtain ⟨m, hm, rfl⟩ := Option.map_eq_some_iff.mp hx
      exact (Option.filter_eq_some_iff.mp hm).1

end

/-- In whatever order Go takes the stale ids, at any time of any run of the ingestor. -/
theorem sweep_settles_by_last_frame (es : List Cache.Event) (t now : Int) (s : Paper.Store)
    (h : ReadsAt t (after (Cache.step render shortest) Cache.new es) s) (visit : List String)
    (hvisit : visit.Perm (staleIDs now s)) :
    SettledBy now s (pastOrders render now t es s) (sweepStale now visit s) := by
  obtain ⟨l, hl, hrun⟩ := sweepStale_eq now s hvisit
  obtain ⟨h1, h2, h3, h4, h5⟩ := foldl_resolved now l s
  rw [← hrun] at h1 h2 h3 h4 h5
  rw [due_eq h] at hl
  have hverdict : ∀ x ∈ pastOrders render now t es s, verdict now s (x.1, x.2.1) = closing now x.2.1 x.2.2 :=
    fun x hx => verdict_eq h now x.1 (mem_pastOrders hx)
  have hshare : ∀ x ∈ pastOrders render now t es s, share now s (x.1, x.2.1) = closingTotals now x.2.1 x.2.2 := by
    intro x hx
    have hread := readMeta_latest render shortest h x.2.1.matchID
    rw [mem_pastOrders hx] at hread
    rw [share, hverdict x hx, hread]
    rfl
  have hsum : (l.map (share now s)).sum = ((pastOrders render now t es s).map fun x => closingTotals now x.2.1 x.2.2).sum := by
    rw [(hl.map (share now s)).sum_eq, List.map_map]
    congr 1
    exact List.map_congr_left hshare
  refine ⟨?_, h2, ⟨l.map (verdict now s), ?_, h3⟩, by rw [h4, hsum], by rw [h5, hsum]⟩
  · rw [h1]
    apply Table.eraseAll_congr
    intro k
    rw [(hl.map (·.1)).mem_iff, List.map_map]
    rfl
  · have hperm := hl.map (verdict now s)
    rw [List.map_map] at hperm
    refine hperm.trans (List.Perm.of_eq ?_)
    exact List.map_congr_left hverdict

/-- Match m2 at full time, 2-1. -/
def lastOfM2 : Match :=
  { matchID := "m2", sport := "football", league := "", homeTeam := "", awayTeam := "", kickoff := 0, clock := fulltime
    score := ⟨2, 1⟩, markets := Table.empty, shots := 0, shotsOnTarget := 0, dangerousAttacks := 0, possessionHome := 0
    receivedAt := 1000000 }

/-- The frame was published, and its reply was lost. -/
def lostReply : List Cache.Event := [.publish 1 lastOfM2 .lost]

/-- A pending home bet on the match, with its hash as the ingestor wrote it. -/
def betOnM2 : Paper.Store := pendingOn (Cache.hset (fun _ => "0") Table.empty lastOfM2)

theorem betOnM2_reads : ReadsAt 2 (after (Cache.step (fun _ => "{}") fun _ => "0") Cache.new lostReply) betOnM2 := by
  intro id
  have hrun : (after (Cache.step (fun _ => "{}") fun _ => "0") Cache.new lostReply).hashes =
      Cache.hsetExpire (fun _ => "0") Table.empty (1, lastOfM2) := by
    simp [lostReply, Cache.step, Cache.publishMatch, Cache.new, Cache.marshal, Cache.exec, Cache.inYears, Cache.unix, lastOfM2]
  rw [hrun, Cache.hsetExpire, Table.get?_set]
  by_cases hid : id = "m2"
  · subst hid
    simp [fieldsOf, betOnM2, pendingOn, Lease.read, Lease.write, lastOfM2, Cache.day]
  · have hother : Cache.hashKeyPrefix ++ id ≠ Cache.hashKeyPrefix ++ lastOfM2.matchID := fun e => hid ((Cache.key_inj _ _).mp e)
    simp [fieldsOf, betOnM2, pendingOn, hid, hother, Lease.read]

theorem sweep_settles_m2 : ["paper_1"].Perm (staleIDs fourHours betOnM2) ∧
    SettledBy fourHours betOnM2 (pastOrders (fun _ => "{}") fourHours 2 lostReply betOnM2)
      (sweepStale fourHours ["paper_1"] betOnM2) := by
  have hvisit : ["paper_1"].Perm (staleIDs fourHours betOnM2) := by decide +kernel
  exact ⟨hvisit, sweep_settles_by_last_frame (fun _ => "{}") (fun _ => "0") lostReply 2 fourHours betOnM2 betOnM2_reads
    ["paper_1"] hvisit⟩

end CasuyaLive.System
