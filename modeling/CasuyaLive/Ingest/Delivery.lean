/-
  CasuyaLive.Ingest.Delivery — the FULLTIME frame of a finished match and the sink.

  No poller looks at the sink's answer before it stops tracking a match: Helabet marks it
  settled, betPawa sets `ftEmitted` or deletes the entry, API-Football deletes it from
  `playing` (also when its settlement frame is invalid and no frame was handed over at
  all). `Delivered`: each match taken as finished has a FULLTIME frame the sink accepted.
  `fulltime_delivered_iff`: a run of a poller is delivered iff at each step where it takes a
  match as finished the sink accepts the frame handed over then, or accepted a FULLTIME
  frame of the match before. One refused frame is enough to lose it
  (`a_refused_fulltime_frame_is_lost`).
-/

import CasuyaLive.Ingest.Helabet.FullTime
import CasuyaLive.Ingest.Betpawa.FullTime
import CasuyaLive.Ingest.ApiFootball.Poller

namespace CasuyaLive.Ingest

open CasuyaLive.Lib CasuyaLive.Ingest.Stream

/-! ## Helabet -/

namespace Helabet

/-- When the entry settles its match, the sink takes the settlement frame. -/
def EntryAccepted (sink : Sink RawMatch) (now : Int) (p : Poller) (raw : RawMatch) : Prop :=
  listed raw = true → matchIDKey raw.id ∉ p.settled → isFullTime raw = true → ∀ frame, toMatch now raw = some frame →
    sink (p.log ++ [.listed raw]) (frame.settlement now) = true ∨ Accepted (matchIDKey raw.id) p.log

/-- When the dropped match counts as finished, the sink takes the settlement frame. -/
def DropAccepted (sink : Sink RawMatch) (now : Int) (p : Poller) (x : String × TrackedMatch) : Prop :=
  finishedAtDrop now x.2 = true → sink p.log (x.2.lastFrame.settlement now) = true ∨ Accepted x.1 p.log

def EndAccepted (sink : Sink RawMatch) (p : Poller) (t : Tick) : Prop :=
  ∀ raws, t.board = some raws →
    let q := raws.foldl (onEntry sink t.now) p
    Meets (onEntry sink t.now) (EntryAccepted sink t.now) p raws ∧
      Meets (onDrop sink t.now) (DropAccepted sink t.now) { q with active := q.active.filter (seenOn raws).contains }
        (q.active.entries.filter fun x => !(seenOn raws).contains x.1)

theorem onEntry_delivered (sink : Sink RawMatch) (now : Int) (p : Poller) (raw : RawMatch) :
    Delivered (onEntry sink now p raw).log ↔ Delivered p.log ∧ EntryAccepted sink now p raw := by
  unfold onEntry EntryAccepted
  cases hl : listed raw with
  | false => simp
  | true =>
    simp only [Bool.not_true, Bool.false_eq_true, if_false, forall_true_left]
    by_cases hs : matchIDKey raw.id ∈ p.settled
    · simp [hs, delivered_listed]
    · cases hm : toMatch now raw with
      | none => simp [hs, delivered_listed]
      | some frame =>
        have hid : (frame.settlement now).matchID = matchIDKey raw.id := (toMatch_spec hm).1
        cases hf : isFullTime raw with
        | false =>
          simp only [hs, if_false, Bool.false_eq_true, safePublish, false_imp_iff]
          rw [delivered_sent, delivered_listed]
          simp
        | true =>
          have hacc : Accepted (matchIDKey raw.id) (p.log ++ [.listed raw]) ↔ Accepted (matchIDKey raw.id) p.log := by
            rw [← accepted_iff, ← accepted_iff, List.any_append]
            simp [acceptedBy]
          simp only [hs, if_false, if_true, markSettled, safePublish, not_false_eq_true, forall_true_left,
            Option.some.injEq, forall_eq']
          rw [delivered_end _ _ (settlement_clock frame now) hid, delivered_listed, hacc]

theorem onDrop_delivered (sink : Sink RawMatch) (now : Int) (p : Poller) {x : String × TrackedMatch}
    (hx : x.2.lastFrame.matchID = x.1) :
    Delivered (onDrop sink now p x).log ↔ Delivered p.log ∧ DropAccepted sink now p x := by
  unfold onDrop DropAccepted
  cases hf : finishedAtDrop now x.2 with
  | false => simp [markSettled, delivered_stopped]
  | true =>
    simp only [if_true, markSettled, safePublish, forall_true_left]
    exact delivered_end _ _ (settlement_clock _ now) hx

theorem tick_delivered (sink : Sink RawMatch) {p : Poller} (h : WF p) (t : Tick) :
    Delivered (tick sink p t).log ↔ Delivered p.log ∧ EndAccepted sink p t := by
  unfold tick EndAccepted
  cases t.board with
  | none => simp
  | some raws =>
    have hq := onEntries_wf sink t.now raws h
    have hkey : ∀ x ∈ (raws.foldl (onEntry sink t.now) p).active.entries.filter (fun x => !(seenOn raws).contains x.1),
        x.2.lastFrame.matchID = x.1 := fun x hx => hq.matchID ((Table.mem_iff _ _ _).mp (List.mem_of_mem_filter hx))
    have hentries := run_iff (onEntry sink t.now) (EntryAccepted sink t.now) (fun _ => True) (fun q => Delivered q.log) raws
      (fun _ _ _ _ => trivial) (fun q raw _ _ => onEntry_delivered sink t.now q raw) (s := p) trivial
    have hdrops := run_iff (onDrop sink t.now) (DropAccepted sink t.now) (fun _ => True) (fun q => Delivered q.log) _
      (fun _ _ _ _ => trivial) (fun q x hx _ => onDrop_delivered sink t.now q (hkey x hx))
      (s := { raws.foldl (onEntry sink t.now) p with
        active := (raws.foldl (onEntry sink t.now) p).active.filter (seenOn raws).contains }) trivial
    simp only [Option.some.injEq, forall_eq', dropAbsent]
    rw [hdrops, hentries, and_assoc]

theorem run_delivered_iff (sink : Sink RawMatch) (ts : List Tick) :
    Delivered (run sink ts).log ↔ Meets (tick sink) (EndAccepted sink) new ts := by
  have hrun := run_iff (tick sink) (EndAccepted sink) WF (fun p => Delivered p.log) ts
    (fun p t _ h => tick_wf sink h t) (fun p t _ h => tick_delivered sink h t) new_wf
  exact hrun.trans (and_iff_right each_nil)

end Helabet

/-! ## betPawa -/

namespace Betpawa

/-- When the event sets `ftEmitted`, the sink takes one of its two frames. -/
def EventAccepted (sink : Sink RawEvent) (now : Int) (p : Poller) (ev : RawEvent) : Prop :=
  ∀ m, toMatch now ev = some m → emittedFor p m.matchID = false → isFullTimePeriod ev.display = true →
    sink p.log m = true ∨ sink (p.log ++ [.sent m (sink p.log m)]) { m with clock := fulltime } = true ∨
      Accepted m.matchID p.log

/-- When the match leaves the feed late, the sink takes the settlement frame. -/
def DropAccepted (sink : Sink RawEvent) (now : Int) (p : Poller) (x : String × Tracked) : Prop :=
  lateDrop now x.2 = true → sink p.log (x.2.frame.settlement now) = true ∨ Accepted x.1 p.log

def EndAccepted (sink : Sink RawEvent) (p : Poller) (t : Tick) : Prop :=
  ∀ evs, t.feed = some evs →
    let q := onEvents sink t p evs
    Meets (onEvent sink t.now) (EventAccepted sink t.now) p evs ∧
      Meets (onDrop sink t.now) (DropAccepted sink t.now) q (absent t.now evs q)

theorem onEvent_delivered (sink : Sink RawEvent) (now : Int) (p : Poller) (ev : RawEvent) :
    Delivered (onEvent sink now p ev).log ↔ Delivered p.log ∧ EventAccepted sink now p ev := by
  unfold EventAccepted
  cases hm : toMatch now ev with
  | none => simp [onEvent_skip sink p hm]
  | some m =>
    obtain ⟨-, hlog⟩ := onEvent_spec sink p hm
    rw [hlog]
    simp only [Option.some.injEq, forall_eq']
    unfold eventLog
    cases he : emittedFor p m.matchID with
    | true => simp [delivered_sent]
    | false =>
      cases hf : isFullTimePeriod ev.display with
      | false => simp [delivered_sent]
      | true =>
        have hclock : m.clock = fulltime := by rw [(toMatch_spec hm).2.1, parseClock_fulltime]; exact hf
        have hsplit : ∀ (a : List (Obs RawEvent)) (x y z : Obs RawEvent), a ++ [x, y, z] = a ++ [x] ++ [y] ++ [z] := by simp
        simp only [Bool.not_false, Bool.and_self, if_true, forall_true_left]
        rw [hsplit, delivered_end _ (m := { m with clock := fulltime }) _ rfl rfl, delivered_sent, accepted_sent hclock rfl,
          or_left_comm]

theorem onDrop_delivered (sink : Sink RawEvent) (now : Int) (p : Poller) {x : String × Tracked}
    (hx : x.2.frame.matchID = x.1) (he : x.2.ftEmitted = true → Obs.stopped x.1 true ∈ p.log) :
    Delivered (onDrop sink now p x).log ↔ Delivered p.log ∧ DropAccepted sink now p x := by
  obtain ⟨-, hlog⟩ := onDrop_spec sink now p x
  rw [hlog, dropLog, ← List.append_assoc, DropAccepted]
  cases hl : lateDrop now x.2 with
  | true =>
    simp only [if_true, Bool.or_true, forall_true_left]
    exact delivered_end _ _ (settlement_clock _ now) hx
  | false =>
    simp only [Bool.false_eq_true, if_false, List.append_nil, Bool.or_false, false_imp_iff, and_true]
    rw [delivered_stopped]
    exact ⟨fun h => h.1, fun h => ⟨h, fun hf => h.accepted (he hf)⟩⟩

theorem tick_delivered (sink : Sink RawEvent) {p : Poller} (h : WF p) (t : Tick) :
    Delivered (tick sink p t).log ↔ Delivered p.log ∧ EndAccepted sink p t := by
  unfold tick EndAccepted
  cases t.feed with
  | none => simp
  | some evs =>
    have hq : WF (onEvents sink t p evs) := fold_inv WF (fun _ ev hq => onEvent_wf sink t.now hq ev) evs h
    have hevents := run_iff (onEvent sink t.now) (EventAccepted sink t.now) (fun _ => True) (fun q => Delivered q.log) evs
      (fun _ _ _ _ => trivial) (fun q ev _ _ => onEvent_delivered sink t.now q ev) (s := p) trivial
    -- while the absent entries are dropped, what was emitted stays recorded
    have hdrops := run_iff (onDrop sink t.now) (DropAccepted sink t.now)
      (fun q => ∀ x ∈ absent t.now evs (onEvents sink t p evs), x.2.ftEmitted = true → Obs.stopped x.1 true ∈ q.log)
      (fun q => Delivered q.log) (absent t.now evs (onEvents sink t p evs)) ?_
      (fun q x hx hI => onDrop_delivered sink t.now q (absent_key hq t.now evs x hx) (hI x hx))
      (s := onEvents sink t p evs) ?_
    · simp only [Option.some.injEq, forall_eq']
      rw [hdrops, onEvents, hevents, and_assoc]
    · intro q y _ hI x hx he
      obtain ⟨-, hlog⟩ := onDrop_spec sink t.now q y
      rw [hlog]
      exact List.mem_append_left _ (hI x hx he)
    · intro x hx he
      exact hq.emitted x.1 x.2 ((Table.mem_iff _ _ _).mp (List.mem_of_mem_filter hx)) he

theorem run_delivered_iff (sink : Sink RawEvent) (ts : List Tick) :
    Delivered (run sink ts).log ↔ Meets (tick sink) (EndAccepted sink) new ts := by
  have hrun := run_iff (tick sink) (EndAccepted sink) WF (fun p => Delivered p.log) ts
    (fun p t _ h => tick_wf sink h t) (fun p t _ h => tick_delivered sink h t) new_wf
  exact hrun.trans (and_iff_right each_nil)

end Betpawa

/-! ## API-Football -/

namespace ApiFootball

/-- When the match settles, its settlement frame is valid and the sink takes it. -/
def SettleAccepted (sink : Sink LiveEvent) (c : Cycle) (p : Poller) (x : String × MatchState) : Prop :=
  ∀ frame, settles c x = some frame → (frame.validate = none ∧ sink p.log frame = true) ∨ Accepted (matchIDKey x.1) p.log

def EndAccepted (sink : Sink LiveEvent) (p : Poller) (c : Cycle) : Prop :=
  Meets (onSettle sink c) (SettleAccepted sink c) (onLives sink c p) (onLives sink c p).playing.entries

theorem onSettle_delivered (sink : Sink LiveEvent) (c : Cycle) (p : Poller) (x : String × MatchState) :
    Delivered (onSettle sink c p x).log ↔ Delivered p.log ∧ SettleAccepted sink c p x := by
  unfold onSettle SettleAccepted
  cases hs : settles c x with
  | none => simp
  | some frame =>
    obtain ⟨hclock, hid⟩ := settles_spec hs
    simp only [Option.some.injEq, forall_eq']
    by_cases hv : frame.validate = none
    · rw [if_pos hv, publish, delivered_end _ _ hclock hid]
      simp [hv]
    · rw [if_neg hv, delivered_stopped]
      simp [hv]

theorem onLives_delivered (sink : Sink LiveEvent) (c : Cycle) (p : Poller) :
    Delivered (onLives sink c p).log ↔ Delivered p.log := by
  have hrun := run_iff (onLive sink c) (fun _ _ => True) (fun _ => True) (fun q => Delivered q.log) c.live.entries
    (fun _ _ _ _ => trivial) ?_ (s := p) trivial
  · rw [onLives, hrun]
    exact and_iff_left (meets_true _ _)
  · intro q x _ _
    rcases onLive_log sink c q x with h | ⟨m, ok, h⟩
    · rw [h, and_true]
    · rw [h, delivered_sent, and_true]

theorem register_delivered (l : List (String × LiveEvent)) (p : Poller) :
    (l.foldl register p).log = p.log := by
  induction l generalizing p with
  | nil => rfl
  | cons x l ih => rw [List.foldl_cons, ih, register_log]

theorem cycle_delivered (sink : Sink LiveEvent) (p : Poller) (c : Cycle) :
    Delivered (cycle sink p c).log ↔ Delivered p.log ∧ EndAccepted sink p c := by
  have hsettles := run_iff (onSettle sink c) (SettleAccepted sink c) (fun _ => True) (fun q => Delivered q.log)
    (onLives sink c p).playing.entries (fun _ _ _ _ => trivial) (fun q x _ _ => onSettle_delivered sink c q x)
    (s := onLives sink c p) trivial
  rw [cycle, register_delivered, onSettles, hsettles, onLives_delivered]
  rfl

theorem run_delivered_iff (sink : Sink LiveEvent) (cs : List Cycle) :
    Delivered (run sink cs).log ↔ Meets (cycle sink) (EndAccepted sink) new cs := by
  have hrun := run_iff (cycle sink) (EndAccepted sink) (fun _ => True) (fun p => Delivered p.log) cs
    (fun _ _ _ _ => trivial) (fun p c _ _ => cycle_delivered sink p c) (s := new) trivial
  exact hrun.trans (and_iff_right each_nil)

end ApiFootball

/-! ## The three pollers -/

/-- A run loses no FULLTIME frame exactly when the sink accepts the frame of each finish. -/
theorem fulltime_delivered_iff (hb : Sink Helabet.RawMatch) (bp : Sink Betpawa.RawEvent) (api : Sink ApiFootball.LiveEvent)
    (ts : List Helabet.Tick) (us : List Betpawa.Tick) (cs : List ApiFootball.Cycle) :
    (Delivered (Helabet.run hb ts).log ↔ Meets (Helabet.tick hb) (Helabet.EndAccepted hb) Helabet.new ts) ∧
      (Delivered (Betpawa.run bp us).log ↔ Meets (Betpawa.tick bp) (Betpawa.EndAccepted bp) Betpawa.new us) ∧
      (Delivered (ApiFootball.run api cs).log ↔ Meets (ApiFootball.cycle api) (ApiFootball.EndAccepted api) ApiFootball.new cs) :=
  ⟨Helabet.run_delivered_iff hb ts, Betpawa.run_delivered_iff bp us, ApiFootball.run_delivered_iff api cs⟩

/-- The sink is down for FULLTIME frames. -/
def refuseFullTime {ρ : Type} : Sink ρ := fun _ m => m.clock != fulltime

def row (status : String) : ApiFootball.LiveEvent :=
  { home := "Home", away := "Away", league := "League", status := status, matchTime := "88", homeScore := 1, awayScore := 0
    shots := 0, shotsOnTarget := 0, dangerousAttacks := 0, possessionHome := 0, closed := ⟨0, 0, 0⟩, hasClosedOdds := false
    kickoff := 1000 }

/-- Live with a quote, then only in the day's results as finished. -/
def liveThenFinished : List ApiFootball.Cycle :=
  [⟨6300 * second, Table.empty.set "42" ⟨2, 3, 4⟩, Table.empty.set "42" (row "2H"), Table.empty⟩,
    ⟨7000 * second, Table.empty, Table.empty, Table.empty.set "42" (row "FT")⟩]

theorem a_refused_fulltime_frame_is_lost :
    ¬ Delivered (Helabet.run refuseFullTime (Helabet.twiceFull "FT")).log ∧
      ¬ Delivered (Betpawa.run refuseFullTime [⟨0, some [Betpawa.event501 "" "FINISHED"]⟩]).log ∧
      ¬ Delivered (ApiFootball.run refuseFullTime liveThenFinished).log := by decide +kernel

end CasuyaLive.Ingest
