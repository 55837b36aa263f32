/-
  CasuyaLive.Ingest.ApiFootball.Results — where the final scores of the poll cycle come from
  (data-ingestion-go, internal/apifootball/poller.go: `cycle`, `minute`, `finalScore`).

  A settlement frame carries the score that the day's row of the same cycle calls final, and
  ends the tracking (`settled_known`, `ended_untracked`). A live frame carries the match time
  of its row as its clock, whatever that text is. `never_invents_iff`: over any run every
  FULLTIME frame is a settlement frame, at most one for each time a match is tracked, and a
  match without a final status stays tracked with its market, iff no row in play with a
  quote has the match time "FULLTIME" (`a_match_time_ends_the_match`).
-/

import CasuyaLive.Ingest.ApiFootball.Fixture

namespace CasuyaLive.Ingest.ApiFootball

open CasuyaLive.Lib CasuyaLive.Lib.Text CasuyaLive.Ingest.Stream

/-- The frames of a fixture that `q` has on top of `p`. -/
def added (id : String) (p q : Poller) : List Match :=
  (framesOf (matchIDKey id) q.log).drop (framesOf (matchIDKey id) p.log).length

def fullTimes (id : String) (p : Poller) : Nat := (framesOf (matchIDKey id) p.log).countP (·.clock == fulltime)

/-! ## One cycle -/

section Cycle

variable (sink : Sink LiveEvent) (c : Cycle) (id : String) (p : Poller)

theorem cycle_added :
    added id p (cycle sink p c) = (liveOf c id).toList ++ (endOf c id (p.playing.get? id)).toList := by
  rw [added, cycle_frames, List.drop_left]

theorem cycle_playing : (cycle sink p c).playing.get? id = (cycleView c id (view id p)).1 := by
  rw [← cycle_view sink c id p]
  rfl

variable {c id p}

/-- The score is the one that the day's row calls final. -/
theorem settled_known {m : Match} (h : endOf c id (p.playing.get? id) = some m) :
    ∃ st ev, p.playing.get? id = some st ∧ c.live.get? id = none ∧ c.day.get? id = some ev ∧
      finalScore ev = some m.score := by
  obtain ⟨-, st, ev, hst, ⟨hlive, hday, -⟩, -, hfinal⟩ := endOf_spec h
  exact ⟨st, ev, hst, hlive, hday, hfinal⟩

theorem ended_untracked {m : Match} (h : endOf c id (p.playing.get? id) = some m) :
    (cycle sink p c).playing.get? id = none := by
  obtain ⟨st, ev, hst, hlive, hday, hfinal⟩ := settled_known h
  have hs : settles c (id, st) = some (settlementFrame c.now id st ev m.score) := by simp [settles, hlive, hday, hfinal]
  rw [cycle_playing, cycleView, hlive]
  simp [view, hst, settleView, hs]

/-- Without a live row and without a final status nothing changes. -/
theorem waiting {st : MatchState} (hst : p.playing.get? id = some st) (hlive : c.live.get? id = none)
    (hday : ∀ ev, c.day.get? id = some ev → finalScore ev = none) : (cycle sink p c).playing.get? id = some st := by
  have hs : settles c (id, st) = none := by
    unfold settles
    simp only [hlive]
    cases hd : c.day.get? id with
    | none => rfl
    | some ev =>
      simp only
      rw [hday ev hd]
      rfl
  rw [cycle_playing, cycleView, hlive]
  simp [view, hst, settleView, hs]

/-- A live match keeps its market, or takes the quote of the cycle. -/
theorem playing_on {st : MatchState} (hst : p.playing.get? id = some st) {ev : LiveEvent} (hlive : c.live.get? id = some ev) :
    ∃ st', (cycle sink p c).playing.get? id = some st' ∧
      (st'.lastMarket = st.lastMarket ∨ quoteOf c id = some st'.lastMarket) := by
  rw [cycle_playing, cycleView, hlive]
  simp only [liveView]
  by_cases hplay : inPlay ev = false
  · rw [if_pos hplay]
    exact ⟨st, hst, Or.inl rfl⟩
  · rw [if_neg hplay]
    have hv : (view id p).1.getD (fresh ev) = st := by simp [view, hst]
    cases hq : quoteOf c id with
    | none => exact ⟨st, by rw [hv], Or.inl rfl⟩
    | some mkt =>
      simp only
      split
      · exact ⟨st, by rw [hv], Or.inl rfl⟩
      · exact ⟨_, rfl, Or.inr rfl⟩

/-- No row in play with a clock and a quote calls its minute "FULLTIME". -/
def Timed (c : Cycle) : Prop := ∀ id ev, Shows c id ev → minuteOf ev ≠ fulltime

theorem live_not_fulltime (h : Timed c) {m : Match} (hm : liveOf c id = some m) : m.clock ≠ fulltime := by
  obtain ⟨ev, hshows, -, hclock⟩ := liveOf_spec hm
  rw [hclock]
  exact h id ev hshows

theorem cycle_fullTimes : fullTimes id (cycle sink p c) =
    fullTimes id p + (added id p (cycle sink p c)).countP (·.clock == fulltime) := by
  rw [cycle_added, fullTimes, cycle_frames, List.countP_append]
  rfl

theorem cycle_fullTimes_le : fullTimes id (cycle sink p c) ≤ fullTimes id p + 1 := by
  have hlen : (added id p (cycle sink p c)).length ≤ 1 := by
    rw [cycle_added]
    cases hl : liveOf c id with
    | none => cases endOf c id (p.playing.get? id) <;> simp
    | some m =>
      obtain ⟨ev, hshows, -⟩ := liveOf_spec hl
      rw [endOf_of_shows hshows]
      simp
  have hcount := List.countP_le_length (p := fun m : Match => m.clock == fulltime) (l := added id p (cycle sink p c))
  rw [cycle_fullTimes]
  omega

/-- While a fixture stays tracked it has no full time. -/
theorem tracked_fullTimes (h : Timed c) (htracked : ((cycle sink p c).playing.get? id).isSome = true) :
    fullTimes id (cycle sink p c) = fullTimes id p := by
  have hend : endOf c id (p.playing.get? id) = none := by
    cases he : endOf c id (p.playing.get? id) with
    | none => rfl
    | some m =>
      rw [ended_untracked sink he] at htracked
      cases htracked
  rw [cycle_fullTimes, cycle_added, hend]
  cases hl : liveOf c id with
  | none => rfl
  | some m => simp [live_not_fulltime h hl]

end Cycle

/-! ## Runs -/

/-- What one cycle may do for a fixture. -/
structure Honest (sink : Sink LiveEvent) (p : Poller) (c : Cycle) (id : String) : Prop where
  known : ∀ m ∈ added id p (cycle sink p c), m.clock = fulltime →
    ∃ st ev, p.playing.get? id = some st ∧ c.live.get? id = none ∧ c.day.get? id = some ev ∧
      toUpper (trimSpace ev.status) ∈ ["FT", "AET", "PEN"] ∧ m.score = ⟨ev.homeScore, ev.awayScore⟩
  waits : ∀ st, p.playing.get? id = some st → c.live.get? id = none →
    (∀ ev, c.day.get? id = some ev → toUpper (trimSpace ev.status) ∉ ["FT", "AET", "PEN"]) →
    (cycle sink p c).playing.get? id = some st
  plays : ∀ st ev, p.playing.get? id = some st → c.live.get? id = some ev →
    ∃ st', (cycle sink p c).playing.get? id = some st' ∧
      (st'.lastMarket = st.lastMarket ∨ quoteOf c id = some st'.lastMarket)

structure NeverInvents (sink : Sink LiveEvent) (cs : List Cycle) : Prop where
  honest : ∀ pre c post, cs = pre ++ c :: post → ∀ id, Honest sink (run sink pre) c id
  /-- From any state, through cycles that keep the fixture tracked, and one more. -/
  once : ∀ pre mid c post, cs = pre ++ (mid ++ c :: post) → ∀ id,
    (∀ k, k <+: mid → ((run sink (pre ++ k)).playing.get? id).isSome = true) →
    fullTimes id (run sink (pre ++ (mid ++ [c]))) ≤ fullTimes id (run sink pre) + 1

theorem finalScore_eq (ev : LiveEvent) : finalScore ev =
    if toUpper (trimSpace ev.status) ∈ ["FT", "AET", "PEN"] then some ⟨ev.homeScore, ev.awayScore⟩ else none := by
  simp only [finalScore, List.contains_iff_mem]

theorem run_concat (sink : Sink LiveEvent) (cs : List Cycle) (c : Cycle) : run sink (cs ++ [c]) = cycle sink (run sink cs) c := by
  rw [run, List.foldl_append]
  rfl

theorem episode_fullTimes (sink : Sink LiveEvent) (pre mid : List Cycle) (id : String) (htimed : ∀ c ∈ mid, Timed c)
    (htracked : ∀ k, k <+: mid → ((run sink (pre ++ k)).playing.get? id).isSome = true) :
    fullTimes id (run sink (pre ++ mid)) = fullTimes id (run sink pre) := by
  induction mid using List.reverseRecOn with
  | nil => rw [List.append_nil]
  | append_singleton mid c ih =>
    have hlast := htracked (mid ++ [c]) (List.prefix_refl _)
    rw [← List.append_assoc, run_concat] at hlast ⊢
    rw [tracked_fullTimes sink (htimed c (by simp)) hlast]
    exact ih (fun d hd => htimed d (List.mem_append_left _ hd)) fun k hk => htracked k (hk.trans (List.prefix_append _ _))

theorem honest_of_timed (sink : Sink LiveEvent) (p : Poller) {c : Cycle} (h : Timed c) (id : String) : Honest sink p c id := by
  refine ⟨fun m hm hclock => ?_, fun st hst hlive hday => ?_, fun st ev hst hlive => playing_on sink hst hlive⟩
  · rw [cycle_added, List.mem_append, Option.mem_toList, Option.mem_toList] at hm
    rcases hm with hm | hm
    · exact absurd hclock (live_not_fulltime h hm)
    · obtain ⟨st, ev, hst, hlive, hday, hfinal⟩ := settled_known hm
      rw [finalScore_eq] at hfinal
      split at hfinal
      · rename_i hstatus
        exact ⟨st, ev, hst, hlive, hday, hstatus, (Option.some.inj hfinal).symm⟩
      · cases hfinal
  · apply waiting sink hst hlive
    intro ev hev
    rw [finalScore_eq, if_neg (hday ev hev)]

theorem never_invents_iff (sink : Sink LiveEvent) (cs : List Cycle) : NeverInvents sink cs ↔ ∀ c ∈ cs, Timed c := by
  constructor
  · intro h c hc id ev hshows hminute
    obtain ⟨pre, post, hsplit⟩ := List.append_of_mem hc
    obtain ⟨m, hm, -⟩ := liveOf_of_shows hshows
    obtain ⟨ev', hshows', -, hclock⟩ := liveOf_spec hm
    have hev : ev' = ev := by
      have := hshows'.1.symm.trans hshows.1
      exact Option.some.inj this
    have hin : m ∈ added id (run sink pre) (cycle sink (run sink pre) c) := by
      rw [cycle_added, hm]
      simp
    obtain ⟨-, -, -, hlive, -⟩ := (h.honest pre c post hsplit id).known m hin (by rw [hclock, hev, hminute])
    rw [hshows.1] at hlive
    cases hlive
  · intro h
    refine ⟨fun pre c post hsplit id => honest_of_timed sink _ (h c (by rw [hsplit]; simp)) id, ?_⟩
    intro pre mid c post hsplit id htracked
    have hmid := episode_fullTimes sink pre mid id (fun d hd => h d (by rw [hsplit]; simp [hd])) htracked
    have hlast : fullTimes id (cycle sink (run sink (pre ++ mid)) c) ≤ fullTimes id (run sink (pre ++ mid)) + 1 :=
      cycle_fullTimes_le sink
    rwa [← List.append_assoc, run_concat, ← hmid]

/-- One poll that finds fixture 42 in its second half, the word in the place of the minute. -/
def wordForMinute : List Cycle :=
  [Feeds.cycle ⟨1714571280 * second, Table.empty.set "42" ⟨2, 3, 4⟩, [runningRow "FULLTIME"], []⟩]

theorem a_match_time_ends_the_match : ¬NeverInvents accept wordForMinute := by
  intro h
  have hk := (h.honest [] (Feeds.cycle ⟨1714571280 * second, Table.empty.set "42" ⟨2, 3, 4⟩, [runningRow "FULLTIME"], []⟩) [] rfl
    "42").known
  have hin : ∃ m ∈ added "42" (run accept []) (cycle accept (run accept [])
      (Feeds.cycle ⟨1714571280 * second, Table.empty.set "42" ⟨2, 3, 4⟩, [runningRow "FULLTIME"], []⟩)), m.clock = fulltime := by
    decide +kernel
  obtain ⟨m, hm, hc⟩ := hin
  obtain ⟨st, -, hst, -⟩ := hk m hm hc
  cases hst

end CasuyaLive.Ingest.ApiFootball
