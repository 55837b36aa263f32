/-
  CasuyaLive.Ingest.ApiFootball.Fixture — one fixture across the poll cycles
  (data-ingestion-go, internal/apifootball/poller.go: `cycle`; analytics-engine-py,
  scripts/calibrate.py: `group_cycles`).

  `cycle_view` says once what a cycle does for a fixture: it depends on what is tracked of
  it, its row and its quote in the live feeds and its row in the day's results, and emits one
  frame at most.

  (1) `same_kickoff_iff`: the frames of a fixture carry one kickoff, and so fall into one
  cycle of the replay, exactly when the rows they come from are of that kickoff. It is
  read from the match time, which is also the running clock: a running minute reads as no
  time, and the frame then gets the time of its cycle less an hour
  (`a_running_clock_moves_the_kickoff`).

  (2) `terminal_iff`: nothing follows a FULLTIME frame exactly when no later cycle finds the
  fixture in play again with a clock and a quote. A live feed that fails looks like an empty
  one, so the day's results end a match that the live feed still plays
  (`shown_after_end`, `a_failed_live_feed_ends_the_match_early`).
-/

import Mathlib.Data.List.TakeWhile
import CasuyaLive.Ingest.ApiFootball.Events

namespace CasuyaLive.Ingest.ApiFootball

open CasuyaLive.Lib CasuyaLive.Lib.Text CasuyaLive.Ingest.Stream

/-! ## One fixture in one cycle -/

/-- The valid quote of a fixture. -/
def quoteOf (c : Cycle) (id : String) : Option Market :=
  match c.odds.get? id with
  | none => none
  | some o => if (⟨marketFT1X2, o, 0⟩ : Market).validate = none then some ⟨marketFT1X2, o, 0⟩ else none

/-- The live frame a cycle emits for a fixture. -/
def liveOf (c : Cycle) (id : String) : Option Match :=
  match c.live.get? id with
  | none => none
  | some ev => if inPlay ev = true ∧ minuteOf ev ≠ "" then (quoteOf c id).map (liveFrame c.now id ev) else none

/-- The settlement frame a cycle emits for a tracked fixture. -/
def endOf (c : Cycle) (id : String) (st : Option MatchState) : Option Match :=
  (st.bind fun st => settles c (id, st)).filter (·.validate = none)

/-- What is tracked of a fixture and the frames emitted for it. -/
def view (id : String) (p : Poller) : Option MatchState × List Match := (p.playing.get? id, framesOf (matchIDKey id) p.log)

def liveView (c : Cycle) (id : String) (v : Option MatchState × List Match) (ev : LiveEvent) :
    Option MatchState × List Match :=
  if inPlay ev = false then v
  else
    let st := v.1.getD (fresh ev)
    match quoteOf c id with
    | none => (some st, v.2)
    | some mkt =>
      if minuteOf ev = "" then (some st, v.2)
      else (some { st with lastMarket := mkt, lastScore := ⟨ev.homeScore, ev.awayScore⟩ }, v.2 ++ [liveFrame c.now id ev mkt])

def settleView (c : Cycle) (id : String) (v : Option MatchState × List Match) (st : MatchState) :
    Option MatchState × List Match :=
  match settles c (id, st) with
  | none => v
  | some frame => (none, if frame.validate = none then v.2 ++ [frame] else v.2)

def registerView (v : Option MatchState × List Match) (ev : LiveEvent) : Option MatchState × List Match :=
  if inPlay ev && v.1.isNone then (some (fresh ev), v.2) else v

theorem matchIDKey_inj {id id' : String} (h : matchIDKey id = matchIDKey id') : id = id' := by
  unfold matchIDKey at h
  have hl := congrArg String.toList h
  rw [String.toList_append, String.toList_append] at hl
  exact String.toList_inj.mp (List.append_cancel_left hl)

theorem framesOf_sent (id : String) (log : List (Obs LiveEvent)) (m : Match) (ok : Bool) :
    framesOf id (log ++ [.sent m ok]) = framesOf id log ++ if m.matchID = id then [m] else [] := by
  rw [framesOf_append]
  by_cases h : m.matchID = id
  · simp [framesOf, frames, h]
  · simp [framesOf, frames, h]

theorem framesOf_stopped (id id' : String) (log : List (Obs LiveEvent)) (fin : Bool) :
    framesOf id (log ++ [.stopped id' fin]) = framesOf id log := by
  rw [framesOf_append]
  simp [framesOf, frames]

theorem matchIDKey_ne_blank (id : String) : trimSpace (matchIDKey id) ≠ "" := by
  have ha : 'a' ∈ (matchIDKey id).toList := by
    rw [matchIDKey, String.toList_append]
    exact List.mem_append_left _ (by decide)
  exact trim_ne_blank ha (by decide)

theorem liveFrame_valid (now : Int) (id : String) (ev : LiveEvent) {mkt : Market} (h : mkt.validate = none) :
    (liveFrame now id ev mkt).validate = none := by
  have hone : (liveFrame now id ev mkt).markets.entries = [(marketFT1X2, mkt)] := rfl
  have hid : trimSpace (liveFrame now id ev mkt).matchID ≠ "" := matchIDKey_ne_blank id
  rw [Match.validate, if_neg hid, hone]
  simp [h]

variable (sink : Sink LiveEvent) (c : Cycle) (id : String)

/-- What the live pass does for one row. -/
theorem onLive_eq (p : Poller) (x : String × LiveEvent) :
    onLive sink c p x =
      if inPlay x.2 = false then p
      else
        match quoteOf c x.1 with
        | none => { p with playing := p.playing.set x.1 ((p.playing.get? x.1).getD (fresh x.2)) }
        | some mkt =>
          if minuteOf x.2 = "" then { p with playing := p.playing.set x.1 ((p.playing.get? x.1).getD (fresh x.2)) }
          else
            publish sink { p with
              playing := (p.playing.set x.1 ((p.playing.get? x.1).getD (fresh x.2))).set x.1
                { (p.playing.get? x.1).getD (fresh x.2) with lastMarket := mkt, lastScore := ⟨x.2.homeScore, x.2.awayScore⟩ } }
              (liveFrame c.now x.1 x.2 mkt) := by
  obtain ⟨id, ev⟩ := x
  by_cases hplay : inPlay ev = true
  · cases ho : c.odds.get? id with
    | none => simp [onLive, quoteOf, hplay, ho]
    | some o =>
      by_cases hv : (⟨marketFT1X2, o, 0⟩ : Market).validate = none
      · by_cases hminute : minuteOf ev = ""
        · simp [onLive, quoteOf, hplay, ho, hv, hminute]
        · simp [onLive, quoteOf, hplay, ho, hv, hminute, liveFrame_valid c.now id ev hv]
      · simp [onLive, quoteOf, hplay, ho, hv]
  · simp [onLive, hplay]

theorem view_publish (p : Poller) (m : Match) :
    view id (publish sink p m) = ((view id p).1, (view id p).2 ++ if m.matchID = matchIDKey id then [m] else []) := by
  rw [view, view, publish, framesOf_sent]

theorem onLive_other (p : Poller) (x : String × LiveEvent) (h : x.1 ≠ id) : view id (onLive sink c p x) = view id p := by
  have hkey : matchIDKey x.1 ≠ matchIDKey id := fun e => h (matchIDKey_inj e)
  have hid := h.symm
  rw [onLive_eq]
  split
  · rfl
  · split
    · simp [view, hid]
    · rename_i mkt _
      split
      · simp [view, hid]
      · rw [view_publish]
        have hm : (liveFrame c.now x.1 x.2 mkt).matchID ≠ matchIDKey id := hkey
        simp [view, hid, hm]

theorem onLive_self (p : Poller) (ev : LiveEvent) : view id (onLive sink c p (id, ev)) = liveView c id (view id p) ev := by
  rw [onLive_eq, liveView]
  by_cases hplay : inPlay ev = false
  · rw [if_pos hplay, if_pos hplay]
  · rw [if_neg hplay, if_neg hplay]
    cases quoteOf c id with
    | none => simp [view]
    | some mkt =>
      by_cases hminute : minuteOf ev = ""
      · simp [view, hminute]
      · have hm : (liveFrame c.now id ev mkt).matchID = matchIDKey id := rfl
        simp only [if_neg hminute]
        rw [view_publish, if_pos hm]
        simp [view]

/-- Tracking of a fixture ends. -/
def stopped (p : Poller) (id : String) : Poller := ⟨p.playing.erase id, p.log ++ [.stopped (matchIDKey id) true]⟩

theorem onSettle_eq (p : Poller) (x : String × MatchState) :
    onSettle sink c p x =
      match settles c x with
      | none => p
      | some frame => stopped (if frame.validate = none then publish sink p frame else p) x.1 := by
  unfold onSettle
  cases settles c x with
  | none => rfl
  | some frame =>
    simp only
    split <;> rfl

theorem view_stopped (p : Poller) (id' : String) :
    view id (stopped p id') = if id = id' then (none, (view id p).2) else view id p := by
  rw [view, stopped, framesOf_stopped]
  by_cases h : id = id'
  · simp [view, h]
  · simp [view, h]

theorem onSettle_other (p : Poller) (x : String × MatchState) (h : x.1 ≠ id) : view id (onSettle sink c p x) = view id p := by
  rw [onSettle_eq]
  cases hs : settles c x with
  | none => rfl
  | some frame =>
    have hm : frame.matchID ≠ matchIDKey id := by
      rw [(settles_spec hs).2]
      exact fun e => h (matchIDKey_inj e)
    simp only
    rw [view_stopped, if_neg h.symm]
    split
    · rw [view_publish, if_neg hm, List.append_nil]
    · rfl

theorem onSettle_self (p : Poller) (st : MatchState) :
    view id (onSettle sink c p (id, st)) = settleView c id (view id p) st := by
  rw [onSettle_eq, settleView]
  cases hs : settles c (id, st) with
  | none => rfl
  | some frame =>
    have hm : frame.matchID = matchIDKey id := (settles_spec hs).2
    simp only
    rw [view_stopped, if_pos rfl]
    split
    · rw [view_publish, if_pos hm]
    · rfl

theorem register_other (p : Poller) (x : String × LiveEvent) (h : x.1 ≠ id) : view id (register p x) = view id p := by
  unfold register
  split
  · simp [view, h.symm]
  · rfl

theorem register_self (p : Poller) (ev : LiveEvent) : view id (register p (id, ev)) = registerView (view id p) ev := by
  unfold register registerView
  split
  · simp_all [view]
  · simp_all [view]

def cycleView (v : Option MatchState × List Match) : Option MatchState × List Match :=
  match c.live.get? id with
  | some ev => liveView c id v ev
  | none => v.1.elim v (settleView c id v)

theorem liveView_tracked (v : Option MatchState × List Match) {ev : LiveEvent} (h : inPlay ev = true) :
    (liveView c id v ev).1.isSome = true := by
  rw [liveView, if_neg (by simp [h])]
  cases quoteOf c id with
  | none => rfl
  | some mkt =>
    simp only
    split <;> rfl

/-- What a cycle does for a fixture: a row in the live feed is tracked, and without one the
    day's results may end it. The last pass finds everything tracked already. -/
theorem cycle_view (p : Poller) : view id (cycle sink p c) = cycleView c id (view id p) := by
  have hlives := Table.foldl_at c.live (onLive sink c) (view id) id (liveView c id)
    (fun q x h => onLive_other sink c id q x h) (fun q ev => onLive_self sink c id q ev) p
  have hsettles := Table.foldl_at (onLives sink c p).playing (onSettle sink c) (view id) id (settleView c id)
    (fun q x h => onSettle_other sink c id q x h) (fun q st => onSettle_self sink c id q st) (onLives sink c p)
  have hregisters := Table.foldl_at c.live register (view id) id registerView
    (fun q x h => register_other id q x h) (fun q ev => register_self id q ev) (onSettles sink c (onLives sink c p))
  have hst : (onLives sink c p).playing.get? id = (view id (onLives sink c p)).1 := rfl
  rw [← onLives] at hlives
  rw [← onSettles, hst, hlives] at hsettles
  rw [cycle, hregisters, hsettles, cycleView]
  cases hl : c.live.get? id with
  | none => rfl
  | some ev =>
    -- a fixture in the live feed does not settle
    have hno : ∀ v st, settleView c id v st = v := by
      intro v st
      simp [settleView, settles, hl]
    have hsame : ∀ v : Option MatchState × List Match, v.1.elim v (settleView c id v) = v := by
      intro v
      cases hv : v.1 with
      | none => rfl
      | some st => exact hno v st
    simp only [Option.elim_some]
    rw [hsame, registerView]
    cases hplay : inPlay ev with
    | false => simp
    | true =>
      have := liveView_tracked c id (view id p) hplay
      cases hv : (liveView c id (view id p) ev).1 with
      | none => simp [hv] at this
      | some st => simp

/-- What every cycle of a run keeps of a fixture, the run keeps. -/
theorem run_view {I : Option MatchState × List Match → Prop} (hnew : I (none, [])) (cs : List Cycle)
    (hstep : ∀ c ∈ cs, ∀ v, I v → I (cycleView c id v)) : I (view id (run sink cs)) := by
  have hmeets : Meets (cycle sink) (fun _ c => c ∈ cs) new cs := (meets_forall (P := (· ∈ cs))).mpr fun _ h => h
  refine run_inv (fun p => I (view id p)) (fun p c hp hc => ?_) hnew hmeets
  rw [cycle_view]
  exact hstep c hc _ hp

/-! ## The frames of a fixture -/

/-- The live feed has the fixture in play with a clock, and there is a valid quote. -/
def Shows (ev : LiveEvent) : Prop :=
  c.live.get? id = some ev ∧ inPlay ev = true ∧ minuteOf ev ≠ "" ∧ (quoteOf c id).isSome = true

/-- The live feed does not have the fixture, the day's results end it, at a valid price. -/
def Ends (st : MatchState) (ev : LiveEvent) : Prop :=
  c.live.get? id = none ∧ c.day.get? id = some ev ∧ (finalScore ev).isSome = true ∧ (closingMarket st ev).validate = none

variable {c id}

theorem liveOf_spec {m : Match} (h : liveOf c id = some m) :
    ∃ ev, Shows c id ev ∧ m.kickoff = timeUnixOrZero c.now ev.kickoff ∧ m.clock = minuteOf ev := by
  unfold liveOf at h
  cases hl : c.live.get? id with
  | none =>
    rw [hl] at h
    cases h
  | some ev =>
    rw [hl] at h
    simp only at h
    split at h
    · rename_i hplay
      obtain ⟨mkt, hq, rfl⟩ := Option.map_eq_some_iff.mp h
      exact ⟨ev, ⟨hl, hplay.1, hplay.2, by rw [hq]; rfl⟩, rfl, rfl⟩
    · cases h

theorem liveOf_of_shows {ev : LiveEvent} (h : Shows c id ev) :
    ∃ m, liveOf c id = some m ∧ m.kickoff = timeUnixOrZero c.now ev.kickoff := by
  obtain ⟨hl, hplay, hminute, hq⟩ := h
  obtain ⟨mkt, hmkt⟩ := Option.isSome_iff_exists.mp hq
  refine ⟨liveFrame c.now id ev mkt, ?_, rfl⟩
  simp [liveOf, hl, hplay, hminute, hmkt]

theorem settlementFrame_valid (now : Int) (st : MatchState) (ev : LiveEvent) (final : Score) :
    (settlementFrame now id st ev final).validate = (closingMarket st ev).validate := by
  have hone : (settlementFrame now id st ev final).markets.entries = [(marketFT1X2, closingMarket st ev)] := rfl
  have hid : trimSpace (settlementFrame now id st ev final).matchID ≠ "" := matchIDKey_ne_blank id
  rw [Match.validate, if_neg hid, hone]
  cases h : (closingMarket st ev).validate <;> simp [h]

theorem endOf_spec {s : Option MatchState} {m : Match} (h : endOf c id s = some m) :
    m.clock = fulltime ∧ ∃ st ev, s = some st ∧ Ends c id st ev ∧ m.kickoff = timeUnixOrZero c.now st.kickoff ∧
      finalScore ev = some m.score := by
  unfold endOf at h
  obtain ⟨hbind, hvalid⟩ := Option.filter_eq_some_iff.mp h
  obtain ⟨st, rfl, hs⟩ := Option.bind_eq_some_iff.mp hbind
  refine ⟨(settles_spec hs).1, st, ?_⟩
  unfold settles at hs
  simp only at hs
  split at hs
  · cases hs
  · rename_i hlive
    split at hs
    · cases hs
    · rename_i ev hday
      obtain ⟨final, hfinal, rfl⟩ := Option.map_eq_some_iff.mp hs
      rw [decide_eq_true_eq, settlementFrame_valid] at hvalid
      exact ⟨ev, rfl, ⟨hlive, hday, by rw [hfinal]; rfl, hvalid⟩, rfl, hfinal⟩

theorem endOf_of_ends {st : MatchState} {ev : LiveEvent} (h : Ends c id st ev) :
    ∃ m, endOf c id (some st) = some m ∧ m.kickoff = timeUnixOrZero c.now st.kickoff := by
  obtain ⟨hlive, hday, hfinal, hvalid⟩ := h
  obtain ⟨final, hf⟩ := Option.isSome_iff_exists.mp hfinal
  refine ⟨settlementFrame c.now id st ev final, ?_, rfl⟩
  have hs : settles c (id, st) = some (settlementFrame c.now id st ev final) := by simp [settles, hlive, hday, hf]
  simp [endOf, hs, settlementFrame_valid, hvalid]

theorem not_shows_of_liveOf (h : liveOf c id = none) (ev : LiveEvent) : ¬ Shows c id ev := by
  intro hshows
  obtain ⟨m, hm, -⟩ := liveOf_of_shows hshows
  rw [h] at hm
  cases hm

theorem not_ends_of_endOf {s : Option MatchState} (h : endOf c id s = none) {st : MatchState} (hst : s = some st)
    (ev : LiveEvent) : ¬ Ends c id st ev := by
  intro hends
  obtain ⟨m, hm, -⟩ := endOf_of_ends hends
  rw [hst, hm] at h
  cases h

/-- A cycle that shows the fixture does not end it. -/
theorem endOf_of_shows {ev : LiveEvent} (h : Shows c id ev) (s : Option MatchState) : endOf c id s = none := by
  cases hend : endOf c id s with
  | none => rfl
  | some m =>
    obtain ⟨-, st, ev', -, ⟨hgone, -⟩, -⟩ := endOf_spec hend
    rw [h.1] at hgone
    cases hgone

variable (c id)

/-- The frames a cycle adds: a live frame, or a settlement frame. -/
theorem cycle_frames (p : Poller) :
    framesOf (matchIDKey id) (cycle sink p c).log =
      framesOf (matchIDKey id) p.log ++ ((liveOf c id).toList ++ (endOf c id (p.playing.get? id)).toList) := by
  have hview := congrArg Prod.snd (cycle_view sink c id p)
  have hsnd : (view id (cycle sink p c)).2 = framesOf (matchIDKey id) (cycle sink p c).log := rfl
  rw [hsnd] at hview
  rw [hview, cycleView]
  cases hl : c.live.get? id with
  | none =>
    have hlive : liveOf c id = none := by rw [liveOf, hl]
    rw [hlive, endOf]
    cases hst : p.playing.get? id with
    | none => simp [view, hst]
    | some st =>
      cases hs : settles c (id, st) with
      | none => simp [view, settleView, hst, hs]
      | some frame =>
        by_cases hv : frame.validate = none
        · simp [view, settleView, hst, hs, hv, Option.filter]
        · simp [view, settleView, hst, hs, hv, Option.filter]
  | some ev =>
    have hend : ∀ st, endOf c id st = none := by
      intro st
      cases st <;> simp [endOf, settles, hl]
    rw [hend, liveOf, hl]
    simp only [liveView]
    by_cases hplay : inPlay ev = true
    · cases hq : quoteOf c id with
      | none => simp [view, hplay]
      | some mkt =>
        by_cases hminute : minuteOf ev = ""
        · simp [view, hplay, hminute]
        · simp [view, hplay, hminute]
    · simp [view, hplay]

/-! ## One kickoff -/

/-- The cycle of the replay a frame falls into: the kickoff in whole seconds. -/
def groupKey (m : Match) : String × Int := (m.matchID, m.kickoff / second)

def addToGroup (groups : Table (String × Int) (List Match)) (m : Match) : Table (String × Int) (List Match) :=
  groups.set (groupKey m) ((groups.get? (groupKey m)).getD [] ++ [m])

def groupCycles (frames : List Match) : Table (String × Int) (List Match) := frames.foldl addToGroup Table.empty

/-- Every frame is under its own key. -/
theorem groupCycles_key (ms : List Match) : ∀ k g, (groupCycles ms).get? k = some g → ∀ m ∈ g, m ∈ ms ∧ groupKey m = k := by
  have hall : ∀ (ms done : List Match) (groups : Table (String × Int) (List Match)),
      (∀ k g, groups.get? k = some g → ∀ m ∈ g, m ∈ done ∧ groupKey m = k) →
      ∀ k g, (ms.foldl addToGroup groups).get? k = some g → ∀ m ∈ g, m ∈ done ++ ms ∧ groupKey m = k := by
    intro ms
    induction ms with
    | nil => intro done groups h; simpa using h
    | cons n ms ih =>
      intro done groups h
      have hstep := ih (done ++ [n]) (addToGroup groups n) ?_
      · simpa using hstep
      · intro k g hg m hm
        rw [addToGroup, Table.get?_set] at hg
        split at hg
        · rename_i hk
          cases hg
          rcases List.mem_append.mp hm with hm | hm
          · cases hold : groups.get? (groupKey n) with
            | none => simp [hold] at hm
            | some old =>
              rw [hold] at hm
              obtain ⟨hin, hkey⟩ := h _ old hold m hm
              exact ⟨List.mem_append_left _ hin, hkey.trans hk.symm⟩
          · rw [List.mem_singleton.mp hm]
            exact ⟨List.mem_append_right _ (List.mem_singleton_self n), hk.symm⟩
        · obtain ⟨hin, hkey⟩ := h k g hg m hm
          exact ⟨List.mem_append_left _ hin, hkey⟩
  have h := hall ms [] Table.empty (by simp)
  simpa [groupCycles] using h

/-- The frames of a fixture carry one kickoff, and the replay puts them into one cycle. -/
def OneKickoff (log : List (Obs LiveEvent)) : Prop :=
  (∀ m ∈ framesOf (matchIDKey id) log, ∀ n ∈ framesOf (matchIDKey id) log, m.kickoff = n.kickoff) ∧
    ∃ k, ∀ x ∈ (groupCycles (frames log)).entries, (∃ m ∈ x.2, m.matchID = matchIDKey id) → x.1 = k

/-- A kickoff read as `unix` is the instant `t`; one that was not read is so only to a poll
    an hour after it. -/
def StandsFor (now unix t : Int) : Prop := (0 < unix ∧ t = unix * second) ∨ (unix ≤ 0 ∧ now = t + 60 * minute)

theorem timeUnixOrZero_iff (now unix t : Int) : timeUnixOrZero now unix = t ↔ StandsFor now unix t := by
  unfold timeUnixOrZero StandsFor
  split <;> omega

/-- The row the cycle finds in play, or the one under which the fixture it ends came to be
    tracked, is of a kickoff at `t`. -/
def KickoffAt (t : Int) (p : Poller) (c : Cycle) : Prop :=
  (∀ ev, Shows c id ev → StandsFor c.now ev.kickoff t) ∧
    ∀ st ev, p.playing.get? id = some st → Ends c id st ev → StandsFor c.now st.kickoff t

theorem cycle_kickoffs (t : Int) (p : Poller) :
    (∀ m ∈ framesOf (matchIDKey id) (cycle sink p c).log, m.kickoff = t) ↔
      (∀ m ∈ framesOf (matchIDKey id) p.log, m.kickoff = t) ∧ KickoffAt id t p c := by
  rw [cycle_frames]
  simp only [List.mem_append, Option.mem_toList]
  constructor
  · intro h
    refine ⟨fun m hm => h m (Or.inl hm), fun ev hev => ?_, fun st ev hst hev => ?_⟩
    · obtain ⟨m, hm, hk⟩ := liveOf_of_shows hev
      rw [← timeUnixOrZero_iff, ← hk]
      exact h m (Or.inr (Or.inl hm))
    · obtain ⟨m, hm, hk⟩ := endOf_of_ends hev
      rw [← timeUnixOrZero_iff, ← hk]
      exact h m (Or.inr (Or.inr (by rw [hst]; exact hm)))
  · intro h m hm
    obtain ⟨hold, hlive, hend⟩ := h
    rcases hm with hm | hm | hm
    · exact hold m hm
    · obtain ⟨ev, hev, hk, -⟩ := liveOf_spec hm
      rw [hk, timeUnixOrZero_iff]
      exact hlive ev hev
    · obtain ⟨-, st, ev, hst, hev, hk, -⟩ := endOf_spec hm
      rw [hk, timeUnixOrZero_iff]
      exact hend st ev hst hev

theorem one_kickoff_of_all {t : Int} {log : List (Obs LiveEvent)} (h : ∀ m ∈ framesOf (matchIDKey id) log, m.kickoff = t) :
    OneKickoff id log := by
  refine ⟨fun m hm n hn => (h m hm).trans (h n hn).symm, (matchIDKey id, t / second), ?_⟩
  intro x hg hfixture
  obtain ⟨k, g⟩ := x
  obtain ⟨m, hm, hid⟩ := hfixture
  obtain ⟨hin, hkey⟩ := groupCycles_key _ k g ((Table.mem_iff _ k g).mp hg) m hm
  have hk : m.kickoff = t := h m (List.mem_filter.mpr ⟨hin, by simpa using hid⟩)
  show k = _
  rw [← hkey, groupKey, hid, hk]

/-- The frames of a fixture carry one kickoff exactly when the rows they come from are of
    kickoffs at one instant. -/
theorem same_kickoff_iff (sink : Sink LiveEvent) (id : String) (xs : List Feeds) :
    OneKickoff id (run sink (xs.map Feeds.cycle)).log ↔
      ∃ t, Meets (cycle sink) (KickoffAt id t) new (xs.map Feeds.cycle) := by
  have hrun : ∀ t, (∀ m ∈ framesOf (matchIDKey id) (run sink (xs.map Feeds.cycle)).log, m.kickoff = t) ↔
      Meets (cycle sink) (KickoffAt id t) new (xs.map Feeds.cycle) := by
    intro t
    have h := run_iff (cycle sink) (KickoffAt id t) (fun _ => True)
      (fun p => ∀ m ∈ framesOf (matchIDKey id) p.log, m.kickoff = t) (xs.map Feeds.cycle) (fun _ _ _ _ => trivial)
      (fun p c _ _ => cycle_kickoffs sink c id t p) (s := new) trivial
    exact h.trans (and_iff_right (by simp [new, framesOf, frames]))
  constructor
  · intro h
    obtain ⟨hsame, -⟩ := h
    cases hf : framesOf (matchIDKey id) (run sink (xs.map Feeds.cycle)).log with
    | nil => exact ⟨0, (hrun 0).mp (by simp [hf])⟩
    | cons m rest =>
      refine ⟨m.kickoff, (hrun _).mp fun n hn => hsame n hn m ?_⟩
      rw [hf]
      exact List.mem_cons_self
  · intro h
    obtain ⟨t, ht⟩ := h
    exact one_kickoff_of_all id ((hrun t).mpr ht)

/-- A fixture shown with a running clock at two times is given two kickoffs. -/
theorem running_clock_moves (sink : Sink LiveEvent) (id : String) (xs : List Feeds) {x y : Feeds} {ev ev' : LiveEvent}
    (hx : Shows x.cycle id ev) (hy : Shows y.cycle id ev')
    (hrows : ∀ row ∈ x.live ++ y.live, ':' ∉ (s (row.get? "match_date")).toList ∧ ':' ∉ (s (row.get? "match_time")).toList)
    (hne : x.now ≠ y.now) : ¬ OneKickoff id (run sink ((xs ++ [x, y]).map Feeds.cycle)).log := by
  intro h
  obtain ⟨hsame, -⟩ := h
  have hzero : ev.kickoff = 0 := kickoff_running hx.1 fun row hr => hrows row (List.mem_append_left _ hr)
  have hzero' : ev'.kickoff = 0 := kickoff_running hy.1 fun row hr => hrows row (List.mem_append_right _ hr)
  obtain ⟨m, hm, hk⟩ := liveOf_of_shows hx
  obtain ⟨n, hn, hk'⟩ := liveOf_of_shows hy
  have hrun : run sink ((xs ++ [x, y]).map Feeds.cycle) =
      cycle sink (cycle sink (run sink (xs.map Feeds.cycle)) x.cycle) y.cycle := by
    simp [run, List.foldl_append]
  have hm' : m ∈ framesOf (matchIDKey id) (run sink ((xs ++ [x, y]).map Feeds.cycle)).log := by
    rw [hrun, cycle_frames, cycle_frames, hm]
    simp
  have hn' : n ∈ framesOf (matchIDKey id) (run sink ((xs ++ [x, y]).map Feeds.cycle)).log := by
    rw [hrun, cycle_frames, hn]
    simp
  have heq := hsame m hm' n hn'
  have h1 : x.cycle.now = x.now := rfl
  have h2 : y.cycle.now = y.now := rfl
  rw [hk, hk', hzero, hzero'] at heq
  simp only [timeUnixOrZero, h1, h2] at heq
  omega

/-- A row of fixture 42 in its second half, at a date without a time. -/
def runningRow (minute : String) : Any :=
  .obj [("match_id", .str "42"), ("match_hometeam_name", .str "Home"), ("match_awayteam_name", .str "Away"),
    ("match_status", .str "2H"), ("match_date", .str "2024-05-01"), ("match_time", .str minute)]

/-- The 88th and the 89th minute, one poll each. -/
def twoPolls : List Feeds :=
  [⟨1714571280 * second, Table.empty.set "42" ⟨2, 3, 4⟩, [runningRow "88"], []⟩,
    ⟨1714571340 * second, Table.empty.set "42" ⟨2, 3, 4⟩, [runningRow "89"], []⟩]

theorem a_running_clock_moves_the_kickoff : ¬ OneKickoff "42" (run accept (twoPolls.map Feeds.cycle)).log := by
  intro h
  obtain ⟨hsame, -⟩ := h
  revert hsame
  decide +kernel

/-! ## FULLTIME is the end -/

/-- No frame of the fixture has a FULLTIME frame before it. -/
def Terminal (log : List (Obs LiveEvent)) : Prop :=
  Each (fun pre _ => ∀ n ∈ pre, n.clock ≠ fulltime) (framesOf (matchIDKey id) log)

instance (log : List (Obs LiveEvent)) : Decidable (Terminal id log) := inferInstanceAs (Decidable (Each _ _))

/-- After a FULLTIME frame the fixture is not found in play again with a clock and a quote,
    nor ended again. -/
def StaysEnded (p : Poller) (c : Cycle) : Prop :=
  (∃ m ∈ framesOf (matchIDKey id) p.log, m.clock = fulltime) →
    (∀ ev, ¬ Shows c id ev) ∧ ∀ st ev, p.playing.get? id = some st → ¬ Ends c id st ev

theorem cycle_terminal (p : Poller) :
    Terminal id (cycle sink p c).log ↔ Terminal id p.log ∧ StaysEnded id p c := by
  rw [Terminal, cycle_frames, each_append, Terminal]
  refine and_congr_right fun _ => ?_
  cases hl : liveOf c id with
  | none =>
    have hshows := not_shows_of_liveOf hl
    cases he : endOf c id (p.playing.get? id) with
    | none =>
      simp only [Option.toList_none, List.append_nil, each_nil, true_iff]
      intro _
      exact ⟨hshows, fun st ev hst => not_ends_of_endOf he hst ev⟩
    | some m =>
      obtain ⟨-, st, ev, hst, hev, -⟩ := endOf_spec he
      simp only [Option.toList_none, List.nil_append, Option.toList_some, each_cons, each_nil, and_true, List.append_nil]
      constructor
      · intro h hsame
        obtain ⟨n, hn, hc⟩ := hsame
        exact absurd hc (h n hn)
      · intro h n hn hc
        exact (h ⟨n, hn, hc⟩).2 st ev hst hev
  | some m =>
    obtain ⟨ev, hev, -⟩ := liveOf_spec hl
    rw [endOf_of_shows hev]
    simp only [Option.toList_none, Option.toList_some, List.append_nil, each_cons, each_nil, and_true]
    constructor
    · intro h hsame
      obtain ⟨n, hn, hc⟩ := hsame
      exact absurd hc (h n hn)
    · intro h n hn hc
      exact (h ⟨n, hn, hc⟩).1 ev hev

/-- Nothing follows a FULLTIME frame exactly when no later cycle finds the fixture in play
    with a clock and a quote, or ends it once more. -/
theorem terminal_iff (sink : Sink LiveEvent) (id : String) (cs : List Cycle) :
    Terminal id (run sink cs).log ↔ Meets (cycle sink) (StaysEnded id) new cs := by
  have h := run_iff (cycle sink) (StaysEnded id) (fun _ => True) (fun p => Terminal id p.log) cs (fun _ _ _ _ => trivial)
    (fun p c _ _ => cycle_terminal sink c id p) (s := new) trivial
  exact h.trans (and_iff_right each_nil)

/-- The live feed does not have the fixture, and the day's results have it with a final status
    and no closing odds that are not valid. -/
def EndedByDay : Prop :=
  c.live.get? id = none ∧ ∃ row, c.day.get? id = some row ∧ (finalScore row).isSome = true ∧
    (row.hasClosedOdds = true → (⟨marketFT1X2, row.closed, 0⟩ : Market).validate = none)

theorem quoteOf_valid {mkt : Market} (h : quoteOf c id = some mkt) : mkt.validate = none := by
  unfold quoteOf at h
  split at h
  · cases h
  · split at h
    · rename_i hvalid
      rw [← Option.some.inj h]
      exact hvalid
    · cases h

/-- A fixture that was shown is tracked under its quote. -/
theorem shows_tracked {ev : LiveEvent} (h : Shows c id ev) (p : Poller) :
    ∃ st, (cycle sink p c).playing.get? id = some st ∧ st.lastMarket.validate = none := by
  obtain ⟨hl, hplay, hminute, hq⟩ := h
  obtain ⟨mkt, hmkt⟩ := Option.isSome_iff_exists.mp hq
  have hview := congrArg Prod.fst (cycle_view sink c id p)
  rw [cycleView, hl] at hview
  simp only [liveView, hplay, hmkt, if_neg hminute, Bool.true_eq_false, if_false] at hview
  exact ⟨_, hview, quoteOf_valid c id hmkt⟩

theorem frames_kept {m : Match} (cs : List Cycle) : ∀ {p : Poller}, m ∈ framesOf (matchIDKey id) p.log →
    m ∈ framesOf (matchIDKey id) (cs.foldl (cycle sink) p).log := by
  induction cs with
  | nil => exact fun hm => hm
  | cons c cs ih =>
    intro p hm
    refine ih ?_
    rw [cycle_frames]
    exact List.mem_append_left _ hm

/-- A fixture shown, then ended by the day's results while the live feed is without it, then
    shown again is not at its end. -/
theorem shown_after_end (sink : Sink LiveEvent) (id : String) (xs zs : List Cycle) {x y z : Cycle} {ev ev' : LiveEvent}
    (hx : Shows x id ev) (hy : EndedByDay y id) (hz : Shows z id ev') :
    ¬ Terminal id (run sink (xs ++ x :: y :: (zs ++ [z]))).log := by
  obtain ⟨hgone, row, hday, hfinal, hclosed⟩ := hy
  obtain ⟨st, hst, hlast⟩ := shows_tracked sink x id hx (run sink xs)
  have hvalid : (closingMarket st row).validate = none := by
    unfold closingMarket
    split
    · exact hclosed ‹_›
    · exact hlast
  obtain ⟨m, hm, -⟩ := @endOf_of_ends y id st row ⟨hgone, hday, hfinal, hvalid⟩
  obtain ⟨hclock, -⟩ := endOf_spec hm
  have hframe : m ∈ framesOf (matchIDKey id) (cycle sink (cycle sink (run sink xs) x) y).log := by
    rw [cycle_frames, hst, hm]
    simp
  have hrun : run sink (xs ++ x :: y :: (zs ++ [z])) =
      cycle sink (zs.foldl (cycle sink) (cycle sink (cycle sink (run sink xs) x) y)) z := by
    simp [run, List.foldl_append]
  rw [hrun, cycle_terminal]
  intro h
  exact (h.2 ⟨m, frames_kept sink id zs hframe, hclock⟩).1 ev' hz

/-- The live feed does not take the fixture back from a final status to another one. -/
def NeverBack (cs : List Cycle) : Prop :=
  cs.Pairwise fun c d => ∀ ev ∈ c.live.get? id, (finalScore ev).isSome = true →
    ∀ ev' ∈ d.live.get? id, (finalScore ev').isSome = true

instance (cs : List Cycle) : Decidable (NeverBack id cs) := inferInstanceAs (Decidable (List.Pairwise _ _))

/-- A row of fixture 42 in extra time, which counts as in play and as final. -/
def extraTimeRow (minute : String) : Any :=
  .obj [("match_id", .str "42"), ("match_hometeam_name", .str "Home"), ("match_awayteam_name", .str "Away"),
    ("match_status", .str "AET"), ("match_date", .str "2024-05-01"), ("match_time", .str minute)]

/-- Three polls; the live feed fails in the second. -/
def failedLiveFeed : List Cycle :=
  [Feeds.cycle ⟨1714571280 * second, Table.empty.set "42" ⟨2, 3, 4⟩, [extraTimeRow "118"], [extraTimeRow "118"]⟩,
    Feeds.cycle ⟨1714571340 * second, Table.empty.set "42" ⟨2, 3, 4⟩, [], [extraTimeRow "119"]⟩,
    Feeds.cycle ⟨1714571400 * second, Table.empty.set "42" ⟨2, 3, 4⟩, [extraTimeRow "120"], [extraTimeRow "120"]⟩]

theorem a_failed_live_feed_ends_the_match_early :
    NeverBack "42" failedLiveFeed ∧ ¬ Terminal "42" (run accept failedLiveFeed).log := by decide +kernel

end CasuyaLive.Ingest.ApiFootball
