/-
  CasuyaLive.Ingest.Betpawa.Poller — the poll loop (data-ingestion-go,
  internal/betpawa/poller.go: `tick`).

  A tick reads the feed once (`none`: the fetch failed) and the clock once. Go ranges over
  the dropped matches in no fixed order; here they go in table order, and every property
  below is about one match at a time. A match is `stopped` when `ftEmitted` is set and when
  its entry is deleted; deleted, it counts as finished when `ftEmitted` was set or the drop
  is late.
-/

import CasuyaLive.Lib.Run
import CasuyaLive.Ingest.Sink
import CasuyaLive.Ingest.Betpawa.Types

namespace CasuyaLive.Ingest.Betpawa

open CasuyaLive.Lib CasuyaLive.Ingest.Stream

structure Tracked where
  frame : Match
  ftEmitted : Bool

structure Poller where
  active : Table String Tracked
  log : List (Obs RawEvent)

def new : Poller := ⟨Table.empty, []⟩

structure Tick where
  now : Int
  feed : Option (List RawEvent)

def publish (sink : Sink RawEvent) (p : Poller) (m : Match) : Poller := { p with log := p.log ++ [.sent m (sink p.log m)] }

/-- The flag of the tracked match; a match that was not tracked starts without it. -/
def emittedFor (p : Poller) (id : String) : Bool := ((p.active.get? id).map (·.ftEmitted)).getD false

/-- One event of the feed. -/
def onEvent (sink : Sink RawEvent) (now : Int) (p : Poller) (ev : RawEvent) : Poller :=
  match toMatch now ev with
  | none => p
  | some m =>
    let ftEmitted := emittedFor p m.matchID
    let q := publish sink { p with active := p.active.set m.matchID ⟨m, ftEmitted⟩ } m
    if !ftEmitted && isFullTimePeriod ev.display then
      let q := publish sink { q with active := q.active.set m.matchID ⟨m, true⟩ } { m with clock := fulltime }
      { q with log := q.log ++ [.stopped m.matchID true] }
    else q

/-- A match that left the feed without its FULLTIME frame, its clock late or its kickoff more
    than 90 minutes old. -/
def lateDrop (now : Int) (trk : Tracked) : Bool :=
  !trk.ftEmitted && (clockIsLate trk.frame.clock || (trk.frame.kickoff != zeroTime && 90 * minute < now - trk.frame.kickoff))

def onDrop (sink : Sink RawEvent) (now : Int) (p : Poller) (x : String × Tracked) : Poller :=
  let q := if lateDrop now x.2 then publish sink p (x.2.frame.settlement now) else p
  { active := q.active.erase x.1
    log := q.log ++ [.stopped x.1 (x.2.ftEmitted || lateDrop now x.2)] }

def nowSeen (now : Int) (evs : List RawEvent) : List String := (evs.filterMap (toMatch now)).map (·.matchID)

/-- The tracked matches the feed no longer lists. -/
def absent (now : Int) (evs : List RawEvent) (p : Poller) : List (String × Tracked) :=
  p.active.entries.filter fun x => !(nowSeen now evs).contains x.1

def onEvents (sink : Sink RawEvent) (t : Tick) (p : Poller) (evs : List RawEvent) : Poller :=
  evs.foldl (onEvent sink t.now) p

def tick (sink : Sink RawEvent) (p : Poller) (t : Tick) : Poller :=
  match t.feed with
  | none => p
  | some evs =>
    let q := onEvents sink t p evs
    (absent t.now evs q).foldl (onDrop sink t.now) q

def run (sink : Sink RawEvent) (ts : List Tick) : Poller := ts.foldl (tick sink) new

/-! ## What one event and one drop do -/

/-- What an accepted event with frame `m` adds to the log. -/
def eventLog (sink : Sink RawEvent) (log : List (Obs RawEvent)) (emitted full : Bool) (m : Match) : List (Obs RawEvent) :=
  let first := Obs.sent m (sink log m)
  first :: if !emitted && full then
      [.sent { m with clock := fulltime } (sink (log ++ [first]) { m with clock := fulltime }), .stopped m.matchID true]
    else []

def dropLog (now : Int) (x : String × Tracked) (ok : Bool) : List (Obs RawEvent) :=
  (if lateDrop now x.2 then [.sent (x.2.frame.settlement now) ok] else []) ++
    [.stopped x.1 (x.2.ftEmitted || lateDrop now x.2)]

theorem onEvent_spec (sink : Sink RawEvent) {now : Int} (p : Poller) {ev : RawEvent} {m : Match}
    (hm : toMatch now ev = some m) :
    (∀ id, (onEvent sink now p ev).active.get? id =
        if id = m.matchID then some ⟨m, emittedFor p m.matchID || isFullTimePeriod ev.display⟩ else p.active.get? id) ∧
      (onEvent sink now p ev).log =
        p.log ++ eventLog sink p.log (emittedFor p m.matchID) (isFullTimePeriod ev.display) m := by
  unfold onEvent eventLog
  rw [hm]
  simp only
  cases he : emittedFor p m.matchID <;> cases hf : isFullTimePeriod ev.display <;>
    refine ⟨fun id => ?_, by simp [publish]⟩ <;> by_cases e : id = m.matchID <;> simp [publish, e]

theorem onEvent_skip (sink : Sink RawEvent) {now : Int} (p : Poller) {ev : RawEvent} (hm : toMatch now ev = none) :
    onEvent sink now p ev = p := by
  unfold onEvent
  rw [hm]

theorem onDrop_spec (sink : Sink RawEvent) (now : Int) (p : Poller) (x : String × Tracked) :
    (onDrop sink now p x).active = p.active.erase x.1 ∧
      (onDrop sink now p x).log = p.log ++ dropLog now x (sink p.log (x.2.frame.settlement now)) := by
  unfold onDrop dropLog
  cases hl : lateDrop now x.2 <;> simp [publish]

/-! ## Well-formed states -/

/-- A tracked frame has its key's id; a frame with the FULLTIME clock is tracked as emitted,
    and what is emitted was taken as finished. -/
structure WF (p : Poller) : Prop where
  key : ∀ id trk, p.active.get? id = some trk → trk.frame.matchID = id
  emitted : ∀ id trk, p.active.get? id = some trk → trk.ftEmitted = true → Obs.stopped id true ∈ p.log
  clocked : ∀ id trk, p.active.get? id = some trk → trk.frame.clock = fulltime → trk.ftEmitted = true

theorem WF.emittedFor {p : Poller} (h : WF p) {id : String} (he : emittedFor p id = true) : Obs.stopped id true ∈ p.log := by
  unfold Betpawa.emittedFor at he
  cases ha : p.active.get? id with
  | none => simp [ha] at he
  | some trk => exact h.emitted id trk ha (by simpa [ha] using he)

theorem new_wf : WF new := by
  constructor <;> intro id trk h <;> simp [new] at h

theorem onEvent_wf (sink : Sink RawEvent) (now : Int) {p : Poller} (h : WF p) (ev : RawEvent) : WF (onEvent sink now p ev) := by
  cases hm : toMatch now ev with
  | none => rwa [onEvent_skip sink p hm]
  | some m =>
    obtain ⟨-, hclock, -⟩ := toMatch_spec hm
    obtain ⟨hget, hlog⟩ := onEvent_spec sink p hm
    refine ⟨fun id trk hg => ?_, fun id trk hg he => ?_, fun id trk hg hc => ?_⟩ <;> rw [hget] at hg <;> split at hg
    · rename_i e
      cases hg
      exact e.symm
    · exact h.key id trk hg
    · rename_i e
      cases hg
      subst e
      rw [hlog, List.mem_append]
      cases hold : Betpawa.emittedFor p m.matchID with
      | true => exact Or.inl (h.emittedFor hold)
      | false =>
        have hfull : isFullTimePeriod ev.display = true := by simpa [hold] using he
        right
        simp [eventLog, hfull]
    · rw [hlog]
      exact List.mem_append_left _ (h.emitted id trk hg he)
    · cases hg
      have hfull : isFullTimePeriod ev.display = true := by rw [← parseClock_fulltime, ← hclock]; exact hc
      simp [hfull]
    · exact h.clocked id trk hg hc

theorem onDrop_wf (sink : Sink RawEvent) (now : Int) {p : Poller} (h : WF p) (x : String × Tracked) :
    WF (onDrop sink now p x) := by
  obtain ⟨hact, hlog⟩ := onDrop_spec sink now p x
  have old : ∀ {i trk}, (onDrop sink now p x).active.get? i = some trk → p.active.get? i = some trk := by
    intro i trk hi
    rw [hact, Table.get?_erase] at hi
    split at hi
    · cases hi
    · exact hi
  refine ⟨fun i trk hi => h.key i trk (old hi), fun i trk hi he => ?_, fun i trk hi hc => h.clocked i trk (old hi) hc⟩
  rw [hlog]
  exact List.mem_append_left _ (h.emitted i trk (old hi) he)

theorem tick_wf (sink : Sink RawEvent) {p : Poller} (h : WF p) (t : Tick) : WF (tick sink p t) := by
  unfold tick
  split
  · exact h
  · exact fold_inv WF (fun q x hq => onDrop_wf sink t.now hq x) _
      (fold_inv WF (fun q ev hq => onEvent_wf sink t.now hq ev) _ h)

/-- Every state of every run is well formed. -/
theorem run_wf (sink : Sink RawEvent) (ts : List Tick) : WF (run sink ts) :=
  fold_inv WF (fun _ t h => tick_wf sink h t) ts new_wf

end CasuyaLive.Ingest.Betpawa
