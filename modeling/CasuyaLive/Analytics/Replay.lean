/-
  CasuyaLive.Analytics.Replay — replaying a match cycle for calibration beside the live run
  (analytics-engine-py, scripts/calibrate.py: `final_score`, `collect_rows`; src/main.py:
  `_worker`).

  The worker feeds every frame to `collect_settled` and then to `observe_many` of one study
  that lives on; the replay feeds the frames of one cycle to `observe_many` of a fresh study.
  A cycle of a match is in-play frames up to the frame that declares a final score.

  A settlement empties the match's window but keeps its counters (`seen_run`,
  `window_cycles`), so the later cycle starts from the earlier cycles' maxima.
  `parity_of_cycle`: the two answer alike iff the first frame observed in the cycle reaches
  those maxima (`NoRewind`); `parity_iff` for every cycle of a run. A counter that starts
  over at kickoff breaks it (`a_second_cycle_keeps_the_first_counters`).
-/

import CasuyaLive.Lib.History
import CasuyaLive.Lib.Run
import CasuyaLive.Analytics.FeatureStudy

namespace CasuyaLive.Analytics

open CasuyaLive.Lib

/-- A frame and the time it was received. -/
structure Received where
  frame : Frame
  asof : ℚ
  deriving DecidableEq

/-- The later of two near-final frames by the clock; the earlier one keeps a tie. -/
def nearFinal (best : Option (ℚ × Frame)) (f : Frame) : Option (ℚ × Frame) :=
  match parseClockMinute (f.clock.getD "") with
  | none => best
  | some minute =>
    if minute < 88 then best
    else
      match best with
      | none => some (minute, f)
      | some b => if b.1 < minute then some (minute, f) else best

/-- The final score that closes a cycle: the last declared one, or else the score of the
    highest clock from 88' on. -/
def finalScore (cycle : List Frame) : Option (Int × Int) :=
  match cycle.reverse.find? fun f => ["FULLTIME", "FT"].contains f.mark with
  | some f => some f.scores
  | none => (cycle.foldl nearFinal none).map (·.2.scores)

section

variable (cfg : Settings)

/-- A frame as the worker feeds it to the study. -/
def feed (s : Study) (r : Received) : Study × List MomentumFrame :=
  let (observed, snapshots) := observeMany cfg (collectSettled s r.frame).1 r.frame r.asof
  (observed, snapshots.map (withFeatures cfg))

/-- A frame as the replay feeds it. -/
def refeed (s : Study) (r : Received) : Study × List MomentumFrame :=
  let (observed, snapshots) := observeMany cfg s r.frame r.asof
  (observed, snapshots.map (withFeatures cfg))

/-- The snapshots `collect_rows` scores for one cycle. -/
def replayCycle (cycle : List Received) : List MomentumFrame :=
  if (finalScore (cycle.map (·.frame))).isNone || cycle.length < 2 then []
  else outputs (refeed cfg) Study.fresh cycle

end

/-- A cycle of the match: in-play frames, then the frame that declares the final score. -/
structure Cycle (m : String) where
  body : List Received
  close : Received
  named : m ≠ ""
  ofMatch : ∀ r ∈ body ++ [close], r.frame.matchID = some m
  inPlay : ∀ r ∈ body, r.frame.isFinal = false
  final : close.frame.isFinal = true

def Cycle.frames {m : String} (c : Cycle m) : List Received := c.body ++ [c.close]

/-- The counters of the frames that are not skipped. -/
def observedCounters (rs : List Received) : List Counters :=
  (rs.filter (·.frame.observed.isSome)).map (·.frame.counters)

section

variable {m : String}

def framesOf (cs : List (Cycle m)) : List Received := cs.flatMap Cycle.frames

/-- Every counter of the cycle's first observed frame has reached what the earlier cycles
    showed of it, a negative one counting as 0. -/
def NoRewind (earlier : List (Cycle m)) (c : Cycle m) : Prop :=
  ∀ first ∈ (observedCounters c.frames).head?, ∀ past ∈ observedCounters (framesOf earlier),
    past ≤ Counters.zero.guard first

variable (cfg : Settings)

/-- What the live study answers to a cycle after the earlier cycles. -/
def liveCycle (earlier : List (Cycle m)) (c : Cycle m) : List MomentumFrame :=
  outputs (feed cfg) (after (feed cfg) Study.fresh (framesOf earlier)) c.frames

/-! ## What a settlement leaves -/

theorem observedCounters_append (a b : List Received) :
    observedCounters (a ++ b) = observedCounters a ++ observedCounters b := by
  simp [observedCounters]

theorem observedCounters_single (r : Received) :
    observedCounters [r] = if r.frame.observed.isSome then [r.frame.counters] else [] := by
  simp only [observedCounters, List.filter_cons, List.filter_nil]
  split <;> rfl

theorem collectSettled_seen (s : Study) (f : Frame) (m : String) : (collectSettled s f).1.seen m = s.seen m := by
  unfold collectSettled
  split <;> rfl

theorem feed_seen (s : Study) {r : Received} (hm : r.frame.matchID = some m) :
    (feed cfg s r).1.seen m = (observedCounters [r]).foldl Counters.guard (s.seen m) := by
  rw [observedCounters_single]
  have hkeep := collectSettled_seen s r.frame m
  cases ho : r.frame.observed with
  | none =>
    simp only [feed, observeMany_none cfg _ ho, Option.isSome_none, Bool.false_eq_true, if_false, List.foldl_nil]
    exact hkeep
  | some x =>
    obtain ⟨m', clock⟩ := x
    have hid := Frame.observed_id hm ho
    subst hid
    simp only [feed, observeMany_seen cfg _ ho, Option.isSome_some, if_true, List.foldl_cons, List.foldl_nil, hkeep]

/-- The counters after a run: those of every observed frame, whatever settled. -/
theorem seen_run (rs : List Received) : ∀ (s : Study), (∀ r ∈ rs, r.frame.matchID = some m) →
    (after (feed cfg) s rs).seen m = (observedCounters rs).foldl Counters.guard (s.seen m) := by
  induction rs with
  | nil => intro s _; rfl
  | cons r rs ih =>
    intro s h
    have hsplit : observedCounters (r :: rs) = observedCounters [r] ++ observedCounters rs := observedCounters_append [r] rs
    rw [after_cons, ih _ fun x hx => h x (List.mem_cons_of_mem _ hx), feed_seen cfg s (h r List.mem_cons_self), hsplit,
      List.foldl_append]

theorem foldl_guard_le (l : List Counters) : ∀ (a c : Counters),
    l.foldl Counters.guard a ≤ c ↔ a ≤ c ∧ ∀ x ∈ l, x ≤ c := by
  induction l with
  | nil => intro a c; simp
  | cons x l ih => intro a c; simp only [List.foldl_cons, ih, Counters.guard_le_iff, List.mem_cons, forall_eq_or_imp, and_assoc]

theorem feed_final (s : Study) {r : Received} (hm : r.frame.matchID = some m) (hne : m ≠ "") (hf : r.frame.isFinal = true) :
    (feed cfg s r).1.window m = [] ∧ (feed cfg s r).2 = [] := by
  have ho := Frame.observed_final hf
  simp only [feed, observeMany_none cfg _ ho]
  exact ⟨(collectSettled_final s hf hm hne).1, rfl⟩

theorem refeed_final (s : Study) {r : Received} (hf : r.frame.isFinal = true) : refeed cfg s r = (s, []) := by
  simp only [refeed, observeMany_none cfg s (Frame.observed_final hf), List.map_nil]

theorem feed_open (s : Study) {r : Received} (hf : r.frame.isFinal = false) : feed cfg s r = refeed cfg s r := by
  simp only [feed, refeed, collectSettled_open s hf]

theorem framesOf_ofMatch (cs : List (Cycle m)) : ∀ r ∈ framesOf cs, r.frame.matchID = some m := by
  intro r hr
  obtain ⟨c, -, hc⟩ := List.mem_flatMap.mp hr
  exact c.ofMatch r hc

/-- Between cycles the window is empty. -/
theorem window_cycles (cs : List (Cycle m)) : (after (feed cfg) Study.fresh (framesOf cs)).window m = [] := by
  induction cs using List.reverseRecOn with
  | nil => rfl
  | append_singleton cs c _ =>
    have hframes : framesOf (cs ++ [c]) = (framesOf cs ++ c.body) ++ [c.close] := by
      simp [framesOf, Cycle.frames]
    rw [hframes, after_append]
    exact (feed_final cfg _ (c.ofMatch c.close (by simp)) c.named c.final).1

/-! ## One cycle -/

theorem maxOf_single (n : Int) : maxOf [n] = n := rfl

theorem aggregate_single (e : StudyEntry) : aggregate [e] = [foldBucket (newBucket e) e] := rfl

/-- The first entry is inside its own window. -/
theorem prune_single (f : Frame) (clock : String) (c : Counters) (now : ℚ) (w : Nat) :
    prune w now [entryOf f clock c now] = [entryOf f clock c now] := by
  simp [prune, entryOf]

/-- The first snapshots of a window show the counters of its one entry. -/
theorem snapshot_single (f : Frame) (clock : String) (now : ℚ) (e : StudyEntry) (h : Counters.zero ≤ e.toCounters)
    (market : String × Quotes) :
    let snap := snapshot f m clock now [e] market
    (⟨snap.shotsTotal, snap.shotsOnTarget, snap.dangerousAttacks⟩ : Counters) = e.toCounters := by
  obtain ⟨h₁, h₂, h₃⟩ := h
  simp only [snapshot, aggregate_single, List.map_cons, List.map_nil, maxOf_single, foldBucket, newBucket]
  rw [max_eq_right h₁, max_eq_right h₂, max_eq_right h₃]

theorem zero_le_guard (a b : Counters) (h : Counters.zero ≤ a) : Counters.zero ≤ a.guard b := by
  have hle := (Counters.guard_le_iff a b (a.guard b)).mp (Counters.le_refl _)
  exact ⟨h.1.trans hle.1.1, h.2.1.trans hle.1.2.1, h.2.2.trans hle.1.2.2⟩

/-- The first observed frame shows alike in two studies with empty windows iff their counters
    are alike then. -/
theorem first_snapshots_iff {s t : Study} (hs : s.window m = []) (ht : t.window m = []) (hs0 : Counters.zero ≤ s.seen m)
    (ht0 : Counters.zero ≤ t.seen m) {r : Received} {clock : String} (ho : r.frame.observed = some (m, clock)) :
    (refeed cfg s r).2 = (refeed cfg t r).2 ↔ (s.seen m).guard r.frame.counters = (t.seen m).guard r.frame.counters := by
  simp only [refeed, observeMany_some cfg _ ho, hs, ht, List.nil_append]
  constructor
  · intro h
    obtain ⟨market, rest, hmarkets⟩ := List.exists_cons_of_ne_nil (Frame.observed_markets ho)
    rw [hmarkets] at h
    simp only [List.map_cons, List.cons.injEq] at h
    have hsnap := h.1
    rw [prune_single, prune_single] at hsnap
    have hl := snapshot_single (m := m) r.frame clock r.asof
      (entryOf r.frame clock ((s.seen m).guard r.frame.counters) r.asof) (zero_le_guard _ _ hs0) market
    have hr := snapshot_single (m := m) r.frame clock r.asof
      (entryOf r.frame clock ((t.seen m).guard r.frame.counters) r.asof) (zero_le_guard _ _ ht0) market
    have hcounters := congrArg (fun x : MomentumFrame => (⟨x.shotsTotal, x.shotsOnTarget, x.dangerousAttacks⟩ : Counters)) hsnap
    exact hl.symm.trans (hcounters.trans hr)
  · intro h
    rw [h]

theorem refeed_same {s t : Study} (h : SameFor m s t) {r : Received} (hm : r.frame.matchID = some m) :
    (refeed cfg s r).2 = (refeed cfg t r).2 ∧ SameFor m (refeed cfg s r).1 (refeed cfg t r).1 := by
  obtain ⟨hout, hsame⟩ := observeMany_same cfg h hm r.asof
  simp only [refeed, hout]
  exact ⟨trivial, hsame⟩

theorem guard_eq_iff {a c : Counters} (h : Counters.zero ≤ a) : a.guard c = Counters.zero.guard c ↔ a ≤ Counters.zero.guard c := by
  rw [← Counters.guard_eq_right a (Counters.zero.guard c), ← Counters.guard_assoc, Counters.guard_comm a Counters.zero,
    (Counters.guard_eq_right Counters.zero a).mpr h]

theorem refeed_length (s t : Study) {r : Received} {x : String × String} (ho : r.frame.observed = some x) :
    (refeed cfg s r).2.length = (refeed cfg t r).2.length := by
  obtain ⟨m', clock⟩ := x
  simp only [refeed, observeMany_some cfg _ ho, List.length_map]

/-- Two studies with empty windows that guard the frame alike are the same afterwards. -/
theorem first_same {s t : Study} (hs : s.window m = []) (ht : t.window m = []) {r : Received} {clock : String}
    (ho : r.frame.observed = some (m, clock))
    (hg : (s.seen m).guard r.frame.counters = (t.seen m).guard r.frame.counters) :
    SameFor m (refeed cfg s r).1 (refeed cfg t r).1 := by
  refine ⟨?_, ?_⟩
  · show (observeMany cfg s r.frame r.asof).1.window m = (observeMany cfg t r.frame r.asof).1.window m
    rw [observeMany_window cfg s ho, observeMany_window cfg t ho, hs, ht, hg]
  · show (observeMany cfg s r.frame r.asof).1.seen m = (observeMany cfg t r.frame r.asof).1.seen m
    rw [observeMany_seen cfg s ho, observeMany_seen cfg t ho, hg]

/-- A study with an empty window replays frames of the match as a fresh one does iff the
    first observed frame reaches the counters it has kept. -/
theorem body_parity {s t : Study} (hs : s.window m = []) (ht : t.window m = []) (hs0 : Counters.zero ≤ s.seen m)
    (ht0 : t.seen m = Counters.zero) (rs : List Received) (hm : ∀ r ∈ rs, r.frame.matchID = some m) :
    outputs (refeed cfg) s rs = outputs (refeed cfg) t rs ↔
      ∀ first ∈ (observedCounters rs).head?, s.seen m ≤ Counters.zero.guard first := by
  induction rs with
  | nil => simp [observedCounters]
  | cons r rs ih =>
    have hrs := fun x hx => hm x (List.mem_cons_of_mem _ hx)
    cases ho : r.frame.observed with
    | none =>
      -- a skipped frame changes nothing and shows nothing
      have hskip : ∀ u : Study, refeed cfg u r = (u, []) := by
        intro u
        simp only [refeed, observeMany_none cfg u ho, List.map_nil]
      have hrest : observedCounters (r :: rs) = observedCounters rs := by simp [observedCounters, ho]
      rw [outputs_cons, outputs_cons, hskip, hskip, hrest]
      exact ih hrs
    | some x =>
      obtain ⟨m', clock⟩ := x
      have hid := Frame.observed_id (hm r List.mem_cons_self) ho
      subst hid
      have hfirst : (observedCounters (r :: rs)).head? = some r.frame.counters := by simp [observedCounters, ho]
      have ht0' : Counters.zero ≤ t.seen m' := by rw [ht0]; exact Counters.le_refl _
      have hshown := first_snapshots_iff cfg hs ht hs0 ht0' ho
      rw [hfirst, outputs_cons, outputs_cons]
      simp only [Option.mem_some_iff, forall_eq']
      rw [← guard_eq_iff hs0, ← ht0]
      constructor
      · intro h
        exact hshown.mp (List.append_inj h (refeed_length cfg s t ho)).1
      · intro hg
        have hsame := first_same cfg hs ht ho hg
        rw [hshown.mpr hg]
        congr 1
        exact outputs_eq (m := refeed cfg) (n := refeed cfg) (SameFor m') rs
          (fun u v x hx h => refeed_same cfg h (hrs x hx)) hsame

/-! ## Whole runs -/

theorem outputs_feed_open {s : Study} (rs : List Received) (h : ∀ r ∈ rs, r.frame.isFinal = false) :
    outputs (feed cfg) s rs = outputs (refeed cfg) s rs :=
  outputs_eq (· = ·) rs (fun u v r hr huv => by
    subst huv
    rw [feed_open cfg u (h r hr)]
    exact ⟨rfl, rfl⟩) rfl

/-- The frame that closes a cycle shows nothing, live or replayed. -/
theorem outputs_cycle_live (s : Study) (c : Cycle m) : outputs (feed cfg) s c.frames = outputs (refeed cfg) s c.body := by
  have hclose := (feed_final cfg (after (feed cfg) s c.body) (c.ofMatch c.close (by simp)) c.named c.final).2
  rw [Cycle.frames, outputs_append, outputs_feed_open cfg c.body c.inPlay, outputs_cons, hclose]
  simp

theorem outputs_cycle_replay (s : Study) (c : Cycle m) : outputs (refeed cfg) s c.frames = outputs (refeed cfg) s c.body := by
  rw [Cycle.frames, outputs_append, outputs_cons, refeed_final cfg _ c.final]
  simp

theorem finalScore_cycle (c : Cycle m) : (finalScore (c.frames.map (·.frame))).isSome = true := by
  have hmark : ["FULLTIME", "FT"].contains c.close.frame.mark = true := (Bool.and_eq_true_iff.mp c.final).2
  have hlast : (c.frames.map (·.frame)).reverse = c.close.frame :: (c.body.map (·.frame)).reverse := by
    simp [Cycle.frames]
  rw [finalScore, hlast, List.find?_cons, hmark]
  rfl

/-- The replay of a whole cycle. -/
theorem replayCycle_eq (c : Cycle m) : replayCycle cfg c.frames = outputs (refeed cfg) Study.fresh c.body := by
  unfold replayCycle
  split
  · rename_i hskip
    -- only a cycle of nothing but its closing frame is skipped
    have hlen : c.body = [] := by
      rw [← Option.not_isSome, finalScore_cycle c] at hskip
      simp only [Bool.not_true, Bool.false_or, decide_eq_true_eq, Cycle.frames, List.length_append,
        List.length_singleton] at hskip
      exact List.length_eq_zero_iff.mp (by omega)
    rw [hlen]
    rfl
  · exact outputs_cycle_replay cfg Study.fresh c

theorem observedCounters_cycle (c : Cycle m) : observedCounters c.frames = observedCounters c.body := by
  rw [Cycle.frames, observedCounters_append, observedCounters_single, Frame.observed_final c.final]
  simp

/-- The replay of a cycle shows what the live study showed iff no counter starts over. -/
theorem parity_of_cycle (earlier : List (Cycle m)) (c : Cycle m) :
    liveCycle cfg earlier c = replayCycle cfg c.frames ↔ NoRewind earlier c := by
  have hkept := seen_run cfg (framesOf earlier) Study.fresh (framesOf_ofMatch earlier)
  have hzero : Counters.zero ≤ (after (feed cfg) Study.fresh (framesOf earlier)).seen m := by
    rw [hkept]
    exact ((foldl_guard_le _ _ _).mp (Counters.le_refl _)).1
  have hbody := body_parity cfg (s := after (feed cfg) Study.fresh (framesOf earlier)) (t := Study.fresh)
    (window_cycles cfg earlier) rfl hzero rfl c.body fun r hr => c.ofMatch r (List.mem_append_left _ hr)
  rw [liveCycle, outputs_cycle_live, replayCycle_eq, hbody, NoRewind, observedCounters_cycle, hkept]
  constructor
  · intro h first hfirst past hpast
    exact ((foldl_guard_le _ _ _).mp (h first hfirst)).2 past hpast
  · intro h first hfirst
    exact (foldl_guard_le _ _ _).mpr ⟨zero_le_guard _ _ (Counters.le_refl _), h first hfirst⟩

/-- In a run of cycles of one match, every cycle replays as it was studied iff in no cycle a
    counter starts over. -/
theorem parity_iff (cs : List (Cycle m)) :
    Each (fun earlier c => liveCycle cfg earlier c = replayCycle cfg c.frames) cs ↔ Each NoRewind cs :=
  ⟨Each.mono fun earlier c _ => (parity_of_cycle cfg earlier c).mp, Each.mono fun earlier c _ => (parity_of_cycle cfg earlier c).mpr⟩

end

/-! ## A counter that starts over -/

/-- A frame of m1 with one market. -/
def frameAt (clock : String) (shots : Int) : Frame :=
  { matchID := some "m1"
    clock := some clock
    score := some ⟨some 0, some 1⟩
    scoreHome := none
    scoreAway := none
    league := some "england_premier_league"
    homeTeam := some "A"
    awayTeam := some "B"
    shots := some shots
    shotsOnTarget := some 2
    dangerousAttacks := some 12
    possessionHome := some (55 / 100)
    markets := ⟨[("2H_1X2", ⟨[("home", some (21 / 10)), ("draw", some (34 / 10)), ("away", some (21 / 4))], by decide⟩)],
      by decide⟩ }

/-- 31' and FULLTIME, with this many shots at 31'. -/
def shortCycle (shots : Int) (kickoff : ℚ) : Cycle "m1" :=
  { body := [⟨frameAt "31'" shots, kickoff + 1860⟩]
    close := ⟨frameAt "FULLTIME" shots, kickoff + 5400⟩
    named := by decide
    ofMatch := by
      intro r hr
      rcases List.mem_cons.mp hr with rfl | hr
      · rfl
      · rw [List.mem_singleton.mp hr]
        rfl
    inPlay := by
      intro r hr
      rw [List.mem_singleton.mp hr]
      show (["HALFTIME", "FULLTIME", "HT", "FT"].contains (Text.toUpper (Text.strip "31'")) && _) = false
      rw [show Text.toUpper (Text.strip "31'") = "31'" by decide +kernel]
      rfl
    final := by
      show (["HALFTIME", "FULLTIME", "HT", "FT"].contains (Text.toUpper (Text.strip "FULLTIME")) &&
        ["FULLTIME", "FT"].contains (Text.toUpper (Text.strip "FULLTIME"))) = true
      rw [show Text.toUpper (Text.strip "FULLTIME") = "FULLTIME" by decide +kernel]
      rfl }

/-- Ten shots in the first cycle, three in the second. -/
theorem a_second_cycle_keeps_the_first_counters :
    ¬ Each (fun earlier c => liveCycle Settings.default earlier c = replayCycle Settings.default c.frames)
      [shortCycle 10 0, shortCycle 3 86400] := by
  decide +kernel

end CasuyaLive.Analytics
