/-
  CasuyaLive.Ingest.Betpawa.FullTime — how often a match is published as full time.

  `ftEmitted` guards the second publish of an event and the publish at the drop. It does not
  guard the first publish of an event, whose clock already says FULLTIME when the period is
  a finished one, and it is forgotten with the entry. `fulltime_once_iff`: over a run, a
  match has at most one FULLTIME frame iff no event of it was read with a finished period
  and it left the feed late at most once. A finished period is published twice at once
  (`a_finished_period_is_published_twice`), and then again on every tick.
-/

import CasuyaLive.Ingest.Betpawa.Poller

namespace CasuyaLive.Ingest.Betpawa

open CasuyaLive.Lib CasuyaLive.Ingest.Stream

def fullTimes (id : String) (log : List (Obs RawEvent)) : Nat := (framesOf id log).countP (·.clock == fulltime)

theorem fullTimes_append (id : String) (a b : List (Obs RawEvent)) : fullTimes id (a ++ b) = fullTimes id a + fullTimes id b := by
  simp [fullTimes, framesOf_append, List.countP_append]

/-- No event of the match is read with a finished period, and a match that leaves the feed
    late was not taken as finished before. -/
def OneFullTime (id : String) (p : Poller) (t : Tick) : Prop :=
  ∀ evs, t.feed = some evs →
    (∀ ev ∈ evs, ∀ m, toMatch t.now ev = some m → m.matchID = id → isFullTimePeriod ev.display = false) ∧
    (∀ trk, p.active.get? id = some trk → id ∉ nowSeen t.now evs → lateDrop t.now trk = true →
      Obs.stopped id true ∉ p.log)

/-- A match with a FULLTIME frame is one that was taken as finished. -/
structure Ended (id : String) (p : Poller) : Prop where
  wf : WF p
  iff : 0 < fullTimes id p.log ↔ Obs.stopped id true ∈ p.log

/-! ## Events -/

theorem eventLog_other (sink : Sink RawEvent) (log : List (Obs RawEvent)) (e f : Bool) {m : Match} {id : String}
    (h : m.matchID ≠ id) :
    fullTimes id (eventLog sink log e f m) = 0 ∧ Obs.stopped id true ∉ eventLog sink log e f m := by
  have h' : id ≠ m.matchID := Ne.symm h
  cases e <;> cases f <;> simp [eventLog, fullTimes, framesOf, frames, h, h']

theorem eventLog_own (sink : Sink RawEvent) (log : List (Obs RawEvent)) (e f : Bool) {m : Match}
    (hc : m.clock = fulltime ↔ f = true) :
    fullTimes m.matchID (eventLog sink log e f m) = (if f then 1 else 0) + (if !e && f then 1 else 0) ∧
      (Obs.stopped m.matchID true ∈ eventLog sink log e f m ↔ (!e && f) = true) := by
  cases e <;> cases f <;> simp [eventLog, fullTimes, framesOf, frames] at hc ⊢ <;> simp [hc]

theorem onEvent_ended (sink : Sink RawEvent) (now : Int) {id : String} {p : Poller} (h : Ended id p) (ev : RawEvent) :
    Ended id (onEvent sink now p ev) ∧
      (fullTimes id (onEvent sink now p ev).log ≤ 1 ↔ fullTimes id p.log ≤ 1 ∧
        ∀ m, toMatch now ev = some m → m.matchID = id → isFullTimePeriod ev.display = false) := by
  have hw := onEvent_wf sink now h.wf ev
  cases hm : toMatch now ev with
  | none => simpa [onEvent_skip sink p hm] using h
  | some m =>
    obtain ⟨-, hlog⟩ := onEvent_spec sink p hm
    have hclock : m.clock = fulltime ↔ isFullTimePeriod ev.display = true := by
      rw [(toMatch_spec hm).2.1, parseClock_fulltime]
    have hend := h.iff
    by_cases hid : m.matchID = id
    · subst hid
      obtain ⟨hn, hs⟩ := eventLog_own sink p.log (emittedFor p m.matchID) (isFullTimePeriod ev.display) hclock
      have hold : emittedFor p m.matchID = true → Obs.stopped m.matchID true ∈ p.log := h.wf.emittedFor
      have hcount : fullTimes m.matchID (onEvent sink now p ev).log = fullTimes m.matchID p.log +
          ((if isFullTimePeriod ev.display then 1 else 0) +
            (if !emittedFor p m.matchID && isFullTimePeriod ev.display then 1 else 0)) := by
        rw [hlog, fullTimes_append, hn]
      have hstop : Obs.stopped m.matchID true ∈ (onEvent sink now p ev).log ↔
          Obs.stopped m.matchID true ∈ p.log ∨ (!emittedFor p m.matchID && isFullTimePeriod ev.display) = true := by
        rw [hlog, List.mem_append, hs]
      cases he : emittedFor p m.matchID <;> cases hf : isFullTimePeriod ev.display <;>
        simp only [he, hf, Bool.not_true, Bool.not_false, Bool.and_true, Bool.and_false, Bool.and_self, if_true,
          Bool.false_eq_true, if_false, or_false] at hcount hstop
      · exact ⟨⟨hw, by rw [hcount, hstop]; exact hend⟩, by simp [hcount]⟩
      · exact ⟨⟨hw, by rw [hcount, hstop]; simp⟩, by simp [hcount]⟩
      · exact ⟨⟨hw, by rw [hcount, hstop]; exact hend⟩, by simp [hcount]⟩
      · have hpos := hend.mpr (hold he)
        refine ⟨⟨hw, by rw [hcount, hstop]; simp [hold he]⟩, ?_⟩
        rw [hcount]
        simp
        omega
    · obtain ⟨hn, hs⟩ := eventLog_other sink p.log (emittedFor p m.matchID) (isFullTimePeriod ev.display) hid
      have hcount : fullTimes id (onEvent sink now p ev).log = fullTimes id p.log := by rw [hlog, fullTimes_append, hn]; omega
      have hstop : Obs.stopped id true ∈ (onEvent sink now p ev).log ↔ Obs.stopped id true ∈ p.log := by
        rw [hlog, List.mem_append]
        simp [hs]
      exact ⟨⟨hw, by rw [hcount, hstop]; exact hend⟩, by simp [hcount, hid]⟩

theorem onEvents_iff (sink : Sink RawEvent) (t : Tick) {id : String} {p : Poller} (h : Ended id p) (evs : List RawEvent) :
    fullTimes id (onEvents sink t p evs).log ≤ 1 ↔ fullTimes id p.log ≤ 1 ∧
      ∀ ev ∈ evs, ∀ m, toMatch t.now ev = some m → m.matchID = id → isFullTimePeriod ev.display = false := by
  have hrun := run_iff (onEvent sink t.now)
    (fun _ ev => ∀ m, toMatch t.now ev = some m → m.matchID = id → isFullTimePeriod ev.display = false) (Ended id)
    (fun q => fullTimes id q.log ≤ 1) evs (fun q ev _ hq => (onEvent_ended sink t.now hq ev).1)
    (fun q ev _ hq => (onEvent_ended sink t.now hq ev).2) h
  rw [meets_forall] at hrun
  exact hrun

theorem onEvents_ended (sink : Sink RawEvent) (t : Tick) {id : String} {p : Poller} (h : Ended id p) (evs : List RawEvent) :
    Ended id (onEvents sink t p evs) :=
  fold_inv (Ended id) (fun _ ev hq => (onEvent_ended sink t.now hq ev).1) evs h

/-- A match the feed does not list is left alone. -/
theorem onEvents_unseen (sink : Sink RawEvent) (t : Tick) {id : String} : ∀ (evs : List RawEvent) (p : Poller),
    id ∉ nowSeen t.now evs →
    (onEvents sink t p evs).active.get? id = p.active.get? id ∧
      (Obs.stopped id true ∈ (onEvents sink t p evs).log ↔ Obs.stopped id true ∈ p.log) := by
  intro evs
  induction evs with
  | nil => intro p _; exact ⟨rfl, Iff.rfl⟩
  | cons ev evs ih =>
    intro p h
    have hrest : id ∉ nowSeen t.now evs := by
      intro hm
      apply h
      simp only [nowSeen, List.mem_map, List.mem_filterMap] at hm ⊢
      obtain ⟨m, ⟨e, he, hme⟩, hid⟩ := hm
      exact ⟨m, ⟨e, List.mem_cons_of_mem _ he, hme⟩, hid⟩
    obtain ⟨hg, hs⟩ := ih (onEvent sink t.now p ev) hrest
    rw [onEvents, List.foldl_cons, ← onEvents, hg, hs]
    cases hm : toMatch t.now ev with
    | none => rw [onEvent_skip sink p hm]; exact ⟨rfl, Iff.rfl⟩
    | some m =>
      have hid : m.matchID ≠ id := by
        intro e
        apply h
        simp only [nowSeen, List.mem_map, List.mem_filterMap]
        exact ⟨m, ⟨ev, List.mem_cons_self, hm⟩, e⟩
      obtain ⟨hget, hlog⟩ := onEvent_spec sink p hm
      obtain ⟨-, hno⟩ := eventLog_other sink p.log (emittedFor p m.matchID) (isFullTimePeriod ev.display) hid
      rw [hget, if_neg (Ne.symm hid), hlog, List.mem_append]
      exact ⟨rfl, by simp [hno]⟩

/-! ## The drop -/

theorem drops_spec (sink : Sink RawEvent) (now : Int) (id : String) : ∀ (l : List (String × Tracked)) (p : Poller),
    (∀ x ∈ l, x.2.frame.matchID = x.1) →
    fullTimes id (l.foldl (onDrop sink now) p).log =
        fullTimes id p.log + (l.filter (·.1 == id)).countP (fun x => lateDrop now x.2) ∧
      (Obs.stopped id true ∈ (l.foldl (onDrop sink now) p).log ↔
        Obs.stopped id true ∈ p.log ∨ ∃ x ∈ l.filter (·.1 == id), (x.2.ftEmitted || lateDrop now x.2) = true) := by
  intro l
  induction l with
  | nil => intro p _; simp
  | cons x l ih =>
    intro p hl
    obtain ⟨hn, hs⟩ := ih (onDrop sink now p x) fun y hy => hl y (List.mem_cons_of_mem _ hy)
    obtain ⟨-, hlog⟩ := onDrop_spec sink now p x
    have hx := hl x List.mem_cons_self
    rw [List.foldl_cons, hn, hs, hlog, fullTimes_append, List.mem_append]
    by_cases h : x.1 = id
    · have hb : (x :: l).filter (·.1 == id) = x :: l.filter (·.1 == id) := List.filter_cons_of_pos (by simpa using h)
      have hcount : fullTimes id (dropLog now x (sink p.log (x.2.frame.settlement now))) = if lateDrop now x.2 then 1 else 0 := by
        cases hd : lateDrop now x.2 <;> simp [dropLog, fullTimes, framesOf, frames, hx, h, hd]
      have hstop : Obs.stopped id true ∈ dropLog now x (sink p.log (x.2.frame.settlement now)) ↔
          (x.2.ftEmitted || lateDrop now x.2) = true := by
        cases hd : lateDrop now x.2 <;> cases he : x.2.ftEmitted <;> simp [dropLog, h, hd, he]
      rw [hb, List.countP_cons, hcount, hstop]
      constructor
      · omega
      · simp only [List.mem_cons, exists_eq_or_imp, or_assoc]
    · have hb : (x :: l).filter (·.1 == id) = l.filter (·.1 == id) := List.filter_cons_of_neg (by simpa using h)
      have h' : id ≠ x.1 := Ne.symm h
      have hcount : fullTimes id (dropLog now x (sink p.log (x.2.frame.settlement now))) = 0 := by
        cases hd : lateDrop now x.2 <;> simp [dropLog, fullTimes, framesOf, frames, hx, h, hd]
      have hstop : Obs.stopped id true ∉ dropLog now x (sink p.log (x.2.frame.settlement now)) := by
        cases hd : lateDrop now x.2 <;> simp [dropLog, h', hd]
      rw [hb, hcount]
      exact ⟨by omega, by simp [hstop]⟩

theorem absent_own (now : Int) (evs : List RawEvent) (p : Poller) (id : String) :
    (absent now evs p).filter (·.1 == id) =
      if id ∈ nowSeen now evs then [] else (p.active.get? id).toList.map fun trk => (id, trk) := by
  split
  · rename_i h
    rw [List.filter_eq_nil_iff]
    intro x hx
    have hne := (List.mem_filter.mp hx).2
    intro e
    have : x.1 = id := by simpa using e
    simp [this, h] at hne
  · rename_i h
    rw [← Table.filter_key, absent, List.filter_filter]
    apply List.filter_congr
    intro x _
    by_cases hx : x.1 = id <;> simp [hx, h]

theorem absent_key {p : Poller} (h : WF p) (now : Int) (evs : List RawEvent) :
    ∀ x ∈ absent now evs p, x.2.frame.matchID = x.1 := fun x hx =>
  h.key x.1 x.2 ((Table.mem_iff _ _ _).mp (List.mem_of_mem_filter hx))

/-! ## A tick and a run -/

/-- What leaves the match's frames and its end alone keeps `Ended`. -/
theorem Ended.same {id : String} {p q : Poller} (h : Ended id p) (hw : WF q) (hn : fullTimes id q.log = fullTimes id p.log)
    (hs : Obs.stopped id true ∈ q.log ↔ Obs.stopped id true ∈ p.log) : Ended id q :=
  ⟨hw, by rw [hn, hs]; exact h.iff⟩

/-- A match that is dropped, but not late, was taken as finished before or is not now. -/
theorem Ended.quiet_drop {id : String} {p q : Poller} {emitted : Bool} (h : Ended id p) (hw : WF q)
    (hold : emitted = true → Obs.stopped id true ∈ p.log) (hn : fullTimes id q.log = fullTimes id p.log)
    (hs : Obs.stopped id true ∈ q.log ↔ Obs.stopped id true ∈ p.log ∨ emitted = true) : Ended id q := by
  refine h.same hw hn ?_
  rw [hs]
  exact ⟨fun e => e.elim (fun h => h) hold, Or.inl⟩

/-- A late drop adds a frame: the only one, if the match had not ended before. -/
theorem Ended.late_drop {id : String} {p q : Poller} (h : Ended id p) (hw : WF q)
    (hn : fullTimes id q.log = fullTimes id p.log + 1) (hs : Obs.stopped id true ∈ q.log) :
    Ended id q ∧ (fullTimes id q.log ≤ 1 ↔ fullTimes id p.log ≤ 1 ∧ Obs.stopped id true ∉ p.log) := by
  have hzero : fullTimes id p.log = 0 ↔ Obs.stopped id true ∉ p.log := by
    rw [← h.iff]
    omega
  refine ⟨⟨hw, ?_⟩, ?_⟩
  · rw [hn]
    simp [hs]
  · rw [hn, ← hzero]
    omega

theorem tick_once (sink : Sink RawEvent) {id : String} {p : Poller} (h : Ended id p) (t : Tick) :
    Ended id (tick sink p t) ∧
      (fullTimes id (tick sink p t).log ≤ 1 ↔ fullTimes id p.log ≤ 1 ∧ OneFullTime id p t) := by
  have hw := tick_wf sink h.wf t
  unfold tick OneFullTime at *
  cases hfeed : t.feed with
  | none => exact ⟨h, by simp⟩
  | some evs =>
    simp only [hfeed] at hw
    have hq := onEvents_ended sink t h evs
    have hiff := onEvents_iff sink t h evs
    obtain ⟨hn, hs⟩ := drops_spec sink t.now id _ (onEvents sink t p evs) (absent_key hq.wf t.now evs)
    rw [absent_own] at hn hs
    simp only [Option.some.injEq, forall_eq']
    by_cases hseen : id ∈ nowSeen t.now evs
    · rw [if_pos hseen] at hn hs
      simp only [List.countP_nil, Nat.add_zero, List.not_mem_nil, false_and, exists_false, or_false] at hn hs
      refine ⟨hq.same hw hn hs, ?_⟩
      rw [hn, hiff]
      simp [hseen]
    · obtain ⟨hget, hstop⟩ := onEvents_unseen sink t evs p hseen
      rw [if_neg hseen, hget] at hn hs
      cases htrk : p.active.get? id with
      | none =>
        simp only [htrk, Option.toList_none, List.map_nil, List.countP_nil, Nat.add_zero, List.not_mem_nil, false_and,
          exists_false, or_false] at hn hs
        refine ⟨hq.same hw hn hs, ?_⟩
        rw [hn, hiff]
        simp
      | some trk =>
        simp only [htrk, Option.toList_some, List.map_cons, List.map_nil, List.mem_singleton, exists_eq_left] at hn hs
        cases hl : lateDrop t.now trk with
        | false =>
          have hold : trk.ftEmitted = true → Obs.stopped id true ∈ (onEvents sink t p evs).log :=
            fun he => hstop.mpr (h.wf.emitted id trk htrk he)
          simp only [List.countP_cons, List.countP_nil, hl, Bool.false_eq_true, if_false, Nat.add_zero, Bool.or_false] at hn hs
          refine ⟨hq.quiet_drop hw hold hn hs, ?_⟩
          rw [hn, hiff]
          simp [hl]
        | true =>
          simp only [List.countP_cons, List.countP_nil, hl, if_true, Nat.zero_add, Bool.or_true, or_true] at hn hs
          obtain ⟨hended, hone⟩ := hq.late_drop hw hn (hs.mpr trivial)
          refine ⟨hended, ?_⟩
          rw [hone, hiff, hstop, and_assoc]
          simp [hl, hseen]

/-- A match has at most one FULLTIME frame over a run, iff no event of it was read with a
    finished period and it was dropped late at most once. -/
theorem fulltime_once_iff (sink : Sink RawEvent) (ts : List Tick) (id : String) :
    fullTimes id (run sink ts).log ≤ 1 ↔ Meets (tick sink) (OneFullTime id) new ts := by
  have hnew : Ended id new := ⟨new_wf, by simp [new, fullTimes, framesOf, frames]⟩
  have hrun := run_iff (tick sink) (OneFullTime id) (Ended id) (fun p => fullTimes id p.log ≤ 1) ts
    (fun p t _ hp => (tick_once sink hp t).1) (fun p t _ hp => (tick_once sink hp t).2) hnew
  refine hrun.trans (and_iff_right ?_)
  simp [new, fullTimes, framesOf, frames]

/-- A live event of match 501. -/
def event501 (minute slug : String) : RawEvent :=
  { id := "501", startTime := some 0, category := "Football", region := "Kenya", competition := "Prem"
    display := ⟨minute, slug⟩, participantPeriodResults := [], participants := []
    markets := [⟨"3743", [[⟨"1", 2⟩, ⟨"X", 3⟩, ⟨"2", 8⟩]]⟩] }

theorem a_finished_period_is_published_twice :
    ¬ fullTimes "bp-501" (run accept [⟨0, some [event501 "" "FULL_TIME_EXCLUDING_OVERTIME"]⟩]).log ≤ 1 := by decide +kernel

end CasuyaLive.Ingest.Betpawa
