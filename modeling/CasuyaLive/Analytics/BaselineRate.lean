/-
  CasuyaLive.Analytics.BaselineRate — a match that plays at its league's rate
  (analytics-engine-py, src/feature_study.py: `observe_many`, `expected_danger`,
  `divergence`, `feature_vector`; scripts/calibrate.py: `recompute_distributions`).

  The fit divides the attacks since kickoff by the minute (`fit_of_rate`), a snapshot carries
  the attacks since kickoff as well, but the study expects those of its window only, which
  is no longer than the study window (`expected_le`).
  - `baseline_rate_iff`: a match at the league's rate shows no divergence from the first full
    window on iff no frame then comes later than one window after kickoff.
  - `a_steady_match_diverges`: 26 attacks by 13', two a minute, diverge by 10.
-/

import CasuyaLive.Analytics.Momentum

namespace CasuyaLive.Analytics

open CasuyaLive.Lib

/-! ## The fit -/

/-- Python's `round` to three digits. -/
def round3 (q : ℚ) : ℚ := 10 * round4 (q / 10)

/-- What `recompute_distributions` collects of one league. -/
structure Collected where
  dangerPerMinute : List ℚ
  possessionHome : List ℚ
  shotAccuracy : List ℚ
  deriving DecidableEq

def Collected.none : Collected := ⟨[], [], []⟩

def collect (acc : Table String Collected) (f : Frame) : Table String Collected :=
  match parseClockMinute (f.clock.getD "") with
  | .none => acc
  | some minute =>
    if minute ≤ 0 then acc
    else
      let league := f.league.getD "default"
      let values := (acc.get? league).getD Collected.none
      acc.set league
        ⟨values.dangerPerMinute ++ [f.counters.dangerousAttacks / minute],
          values.possessionHome ++ [f.possessionHome.getD (1 / 2)],
          values.shotAccuracy ++ [if f.counters.shots = 0 then 0 else (f.counters.shotsOnTarget : ℚ) / f.counters.shots]⟩

def fmean (l : List ℚ) : ℚ := l.sum / l.length

def fitted (values : Collected) : LeagueBaseline :=
  ((Table.empty.set "danger_per_minute" (round3 (fmean values.dangerPerMinute))).set
    "possession_home" (round3 (fmean values.possessionHome))).set "shot_accuracy" (round3 (fmean values.shotAccuracy))

def fitLeague (leagues : Table String LeagueBaseline) (x : String × Collected) : Table String LeagueBaseline :=
  if x.2.dangerPerMinute.length < 3 then leagues else leagues.set x.1 (fitted x.2)

/-- The league baselines refitted from observed frames. -/
def recomputeDistributions (frames : List Frame) : Table String LeagueBaseline :=
  let leagues := (frames.foldl collect Table.empty).entries.foldl fitLeague Table.empty
  if leagues.entries.isEmpty then Table.empty.set "default" Table.empty else leagues

/-- The attacks per minute of a frame, where it counts for the league. -/
def ratePer (league : String) (f : Frame) : Option ℚ :=
  (parseClockMinute (f.clock.getD "")).bind fun minute =>
    if f.league.getD "default" = league ∧ 0 < minute then some (f.counters.dangerousAttacks / minute) else none

theorem collect_danger (league : String) (acc : Table String Collected) (f : Frame) :
    (((collect acc f).get? league).getD Collected.none).dangerPerMinute =
      ((acc.get? league).getD Collected.none).dangerPerMinute ++ (ratePer league f).toList := by
  unfold collect ratePer
  cases parseClockMinute (f.clock.getD "") with
  | none => simp
  | some minute =>
    rw [Option.bind_some]
    by_cases hpos : 0 < minute
    · by_cases hleague : f.league.getD "default" = league
      · simp [hpos, hleague, not_le.mpr hpos]
      · simp [hpos, hleague, not_le.mpr hpos, Table.get?_set_ne _ _ (Ne.symm hleague)]
    · simp [hpos, not_lt.mp hpos]

theorem collected_danger (league : String) (frames : List Frame) :
    (((frames.foldl collect Table.empty).get? league).getD Collected.none).dangerPerMinute = frames.filterMap (ratePer league) := by
  induction frames using List.reverseRecOn with
  | nil => rfl
  | append_singleton frames f ih =>
    rw [List.foldl_concat, collect_danger, ih, List.filterMap_append]
    cases h : ratePer league f <;> simp [h]

theorem fmean_of_all {l : List ℚ} {r : ℚ} (h : ∀ q ∈ l, q = r) (hne : l ≠ []) : fmean l = r := by
  have hlen : (l.length : ℚ) ≠ 0 := by
    rw [Nat.cast_ne_zero]
    exact fun e => hne (List.length_eq_zero_iff.mp e)
  rw [fmean, List.eq_replicate_of_mem h, List.sum_replicate, List.length_replicate, nsmul_eq_mul, mul_div_cancel_left₀ r hlen]

/-- A league with three frames at least is fitted from its own. -/
theorem recompute_get {frames : List Frame} {league : String} {values : Collected}
    (h : (frames.foldl collect Table.empty).get? league = some values) (hthree : 3 ≤ values.dangerPerMinute.length) :
    (recomputeDistributions frames).get? league = some (fitted values) := by
  have hleagues := Table.foldl_at (frames.foldl collect Table.empty) fitLeague
    (fun leagues => leagues.get? league) league
    (fun old values => if values.dangerPerMinute.length < 3 then old else some (fitted values))
    (fun leagues x hx => by
      unfold fitLeague
      split
      · rfl
      · exact Table.get?_set_ne _ _ (Ne.symm hx))
    (fun leagues values => by
      unfold fitLeague
      split
      · rfl
      · exact Table.get?_set_same _ _ _)
    Table.empty
  rw [h, Option.elim_some, if_neg (by omega)] at hleagues
  simp only [recomputeDistributions, Table.isEmpty_of_get hleagues, Bool.false_eq_true, if_false]
  exact hleagues

/-- Frames at one rate fit that rate, rounded. -/
theorem fit_of_rate {league : String} {r : ℚ} {frames : List Frame} (h : ∀ q ∈ frames.filterMap (ratePer league), q = r)
    (hthree : 3 ≤ (frames.filterMap (ratePer league)).length) :
    ((recomputeDistributions frames).get? league).bind (·.get? "danger_per_minute") = some (round3 r) := by
  rw [← collected_danger] at h hthree
  cases hvalues : (frames.foldl collect Table.empty).get? league with
  | none =>
    rw [hvalues] at hthree
    simp [Collected.none] at hthree
  | some values =>
    rw [hvalues, Option.getD_some] at h hthree
    have hne : values.dangerPerMinute ≠ [] := by
      intro e
      rw [e] at hthree
      simp at hthree
    rw [recompute_get hvalues hthree, Option.bind_some, fitted, Table.get?_set_ne _ _ (by decide),
      Table.get?_set_ne _ _ (by decide), Table.get?_set_same, fmean_of_all h hne]

/-- The study's baseline where such a fit is installed. -/
theorem baseline_of_fit {cfg : Settings} {snap : MomentumFrame} {q : ℚ}
    (h : (cfg.leagues.get? snap.league).bind (·.get? "danger_per_minute") = some q) :
    (baselineFor cfg snap).dangerPerMinute = q := by
  obtain ⟨league, hleague, hq⟩ := Option.bind_eq_some_iff.mp h
  simp only [baselineFor, hleague, Option.getD_some, Table.isEmpty_of_get hq, Bool.false_eq_true, if_false, hq]

/-! ## A match at the league's rate -/

section

variable (cfg : Settings) (r kickoff : ℚ)

/-- The match minute a frame is observed at. -/
def minuteAt (x : Received) : ℚ := (x.asof - kickoff) / 60

/-- A frame of a match that plays at the rate `r`, its league's baseline. -/
structure AtRate (x : Received) : Prop where
  started : 0 ≤ minuteAt kickoff x
  danger : (x.frame.counters.dangerousAttacks : ℚ) = r * minuteAt kickoff x
  noShots : x.frame.counters.shots = 0
  baseline : ∀ snap : MomentumFrame, snap.league = x.frame.league.getD "" → (baselineFor cfg snap).dangerPerMinute = r

/-- The match has been observed for a whole study window by the frame. -/
def FullWindow (m : String) (earlier : List Received) (x : Received) : Prop :=
  (∃ clock, x.frame.observed = some (m, clock)) ∧
    ∃ first ∈ (own m (earlier ++ [x])).head?, first.asof + cfg.windowSeconds ≤ x.asof

/-- The frame's snapshots show the match as an average one. -/
def ShowsBaseline (earlier : List Received) (x : Received) : Prop :=
  ∀ snap ∈ (observeMany cfg (studied cfg earlier) x.frame x.asof).2,
    divergence cfg snap = 0 ∧ (featureVector cfg snap).dangerIntensity = 1

theorem runningMax_last {l : List Int} {x : Int} (hle : ∀ y ∈ l, y ≤ x) (h0 : 0 ≤ x) : runningMax (l ++ [x]) = x := by
  have hall : ∀ (l : List Int) (a : Int), a ≤ x → (∀ y ∈ l, y ≤ x) → l.foldl max a ≤ x := by
    intro l
    induction l with
    | nil => intro a ha _; exact ha
    | cons y l ih =>
      intro a ha hl
      exact ih _ (max_le ha (hl y List.mem_cons_self)) fun z hz => hl z (List.mem_cons_of_mem _ hz)
  rw [runningMax_concat]
  exact max_eq_right (hall l 0 h0 hle)

theorem observeMany_market {s : Study} {f : Frame} {m clock : String} (ho : f.observed = some (m, clock)) (now : ℚ) :
    ∃ snap, snap ∈ (observeMany cfg s f now).2 := by
  obtain ⟨market, rest, hmarkets⟩ := List.exists_cons_of_ne_nil (Frame.observed_markets ho)
  rw [observeMany_some cfg s ho, hmarkets]
  exact ⟨_, List.mem_cons_self⟩

/-- What a snapshot takes from its frame and from the window the study is left with. -/
theorem observeMany_snapshot {s : Study} {f : Frame} {m clock : String} (ho : f.observed = some (m, clock)) (now : ℚ) :
    ∀ snap ∈ (observeMany cfg s f now).2, snap.matchID = m ∧ snap.league = f.league.getD "" ∧ snap.windowEnd = now ∧
      snap.windowStart = (((observeMany cfg s f now).1.window m).head?.map (·.ts)).getD now := by
  intro snap hsnap
  rw [observeMany_window cfg s ho]
  rw [observeMany_some cfg s ho] at hsnap
  obtain ⟨market, -, rfl⟩ := List.mem_map.mp hsnap
  exact ⟨rfl, rfl, rfl, rfl⟩

theorem entriesFrom_ts (rs : List Received) (seen : Counters) : (entriesFrom seen rs).map (·.ts) = rs.map (·.asof) := by
  induction rs generalizing seen with
  | nil => rfl
  | cons x rs ih =>
    rw [entriesFrom, List.map_cons, List.map_cons, ih]
    rfl

/-- While the first entry is in the window it is the oldest one. -/
theorem prune_head (w : Nat) (now : ℚ) {entries : List StudyEntry} {t : ℚ} (h : t ∈ (entries.map (·.ts)).head?)
    (hin : now - w ≤ t) : ((prune w now entries).head?.map (·.ts)).getD now = t := by
  cases entries with
  | nil => simp at h
  | cons e entries =>
    have ht : e.ts = t := by simpa using h
    rw [prune, List.filter_cons_of_pos (by simpa [ht] using hin)]
    simpa using ht

variable {cfg r kickoff}

section

variable {m clock : String} {earlier : List Received} {x : Received}

/-- With no shots and the attacks never falling, a snapshot shows those of its frame. -/
theorem steady_counters (hr : 0 < r) (ho : x.frame.observed = some (m, clock))
    (hrate : ∀ y ∈ own m (earlier ++ [x]), AtRate cfg r kickoff y)
    (hsorted : ((own m (earlier ++ [x])).map (·.asof)).Pairwise (· ≤ ·)) :
    ∀ snap ∈ (observeMany cfg (studied cfg earlier) x.frame x.asof).2,
      (snap.dangerousAttacks : ℚ) = r * minuteAt kickoff x ∧ shotAccuracy snap = 0 := by
  intro snap hsnap
  have hcounters := snapshot_counters cfg earlier x snap hsnap
  obtain ⟨hid, -⟩ := observeMany_snapshot cfg ho x.asof snap hsnap
  rw [own_concat ho] at hrate hsorted
  rw [hid, own_concat ho, highWater_max, Counters.mk.injEq] at hcounters
  obtain ⟨hshots, -, hdanger⟩ := hcounters
  have hx := hrate x (by simp)
  have hx0 : 0 ≤ x.frame.counters.dangerousAttacks := by
    have : (0 : ℚ) ≤ x.frame.counters.dangerousAttacks := by
      rw [hx.danger]
      exact mul_nonneg hr.le hx.started
    exact_mod_cast this
  have hle : ∀ y ∈ own m earlier, y.frame.counters.dangerousAttacks ≤ x.frame.counters.dangerousAttacks := by
    intro y hy
    have hyx : y.asof ≤ x.asof := by
      rw [List.map_append] at hsorted
      exact (List.pairwise_append.mp hsorted).2.2 y.asof (List.mem_map_of_mem hy) x.asof (by simp)
    have : (y.frame.counters.dangerousAttacks : ℚ) ≤ x.frame.counters.dangerousAttacks := by
      rw [(hrate y (by simp [hy])).danger, hx.danger]
      refine mul_le_mul_of_nonneg_left ?_ hr.le
      unfold minuteAt
      linarith
    exact_mod_cast this
  rw [List.map_append, List.map_cons, List.map_nil, runningMax_last (List.forall_mem_map.mpr hle) hx0] at hdanger
  have hnone : ∀ n ∈ (own m earlier).map (·.frame.counters.shots), n ≤ (0 : Int) :=
    List.forall_mem_map.mpr fun y hy => (hrate y (by simp [hy])).noShots.le
  rw [List.map_append, List.map_cons, List.map_nil, hx.noShots, runningMax_last hnone (le_refl 0)] at hshots
  refine ⟨by rw [hdanger, hx.danger], ?_⟩
  rw [shotAccuracy, hshots, if_pos (le_refl _)]

theorem expected_le {snap : MomentumFrame} (hr : 0 ≤ r) (hbase : (baselineFor cfg snap).dangerPerMinute = r) :
    expectedDanger cfg snap ≤ r * (cfg.windowSeconds / 60) := by
  unfold expectedDanger
  rw [hbase]
  exact mul_le_mul_of_nonneg_left (min_le_right _ _) hr

theorem expected_full {snap : MomentumFrame} (hbase : (baselineFor cfg snap).dangerPerMinute = r)
    (hspan : snap.windowEnd - snap.windowStart = cfg.windowSeconds) :
    expectedDanger cfg snap = r * (cfg.windowSeconds / 60) := by
  unfold expectedDanger
  simp only
  rw [hbase, hspan, min_eq_right]
  exact div_le_div_of_nonneg_right (le_max_left _ _) (by norm_num)

/-- What shows no divergence has no more attacks since kickoff than a window's. -/
theorem within_of_baseline (hr : 0 < r) (ho : x.frame.observed = some (m, clock))
    (hrate : ∀ y ∈ own m (earlier ++ [x]), AtRate cfg r kickoff y)
    (hsorted : ((own m (earlier ++ [x])).map (·.asof)).Pairwise (· ≤ ·)) (h : ShowsBaseline cfg earlier x) :
    x.asof ≤ kickoff + cfg.windowSeconds ∧ kickoff < x.asof := by
  have hx : AtRate cfg r kickoff x := hrate x (by simp [own_concat ho])
  obtain ⟨snap, hsnap⟩ := observeMany_market cfg (s := studied cfg earlier) ho x.asof
  obtain ⟨hdanger, haccuracy⟩ := steady_counters hr ho hrate hsorted snap hsnap
  obtain ⟨-, hleague, -⟩ := observeMany_snapshot cfg ho x.asof snap hsnap
  obtain ⟨hdiv, hintensity⟩ := h snap hsnap
  have hexpected := expected_le hr.le (hx.baseline snap hleague)
  constructor
  · have hminute : minuteAt kickoff x ≤ cfg.windowSeconds / 60 := by
      rw [divergence, haccuracy, hdanger] at hdiv
      exact le_of_mul_le_mul_left (by linarith) hr
    unfold minuteAt at hminute
    linarith
  · by_contra hbefore
    -- without an attack the intensity is 0
    have hzero : minuteAt kickoff x = 0 := by
      refine le_antisymm ?_ hx.started
      unfold minuteAt
      linarith
    have hnone : (snap.dangerousAttacks : ℚ) = 0 := by rw [hdanger, hzero, mul_zero]
    simp only [featureVector, hnone, zero_div] at hintensity
    exact zero_ne_one hintensity

/-- A match observed from kickoff on: at the end of its first window the window starts there. -/
theorem starts_at_kickoff (ho : x.frame.observed = some (m, clock))
    (hsorted : ((own m (earlier ++ [x])).map (·.asof)).Pairwise (· ≤ ·)) {first : Received}
    (hfirst : first ∈ (own m (earlier ++ [x])).head?) (hin : x.asof - cfg.windowSeconds ≤ first.asof) :
    ∀ snap ∈ (observeMany cfg (studied cfg earlier) x.frame x.asof).2, snap.windowStart = first.asof := by
  intro snap hsnap
  obtain ⟨-, -, -, hstart⟩ := observeMany_snapshot cfg ho x.asof snap hsnap
  have hwindow := studied_window cfg m (earlier ++ [x]) hsorted x.asof (by simp [own_concat ho])
  rw [studied_concat] at hwindow
  have hhead : first.asof ∈ ((observedEntries m (earlier ++ [x])).map (·.ts)).head? := by
    rw [observedEntries, entriesFrom_ts, List.head?_map, hfirst, Option.map_some]
    rfl
  rwa [hwindow, prune_head _ _ hhead hin] at hstart

theorem baseline_of_window (hr : 0 < r) (ho : x.frame.observed = some (m, clock))
    (hrate : ∀ y ∈ own m (earlier ++ [x]), AtRate cfg r kickoff y)
    (hsorted : ((own m (earlier ++ [x])).map (·.asof)).Pairwise (· ≤ ·)) (hpos : 0 < cfg.windowSeconds)
    (htime : x.asof = kickoff + cfg.windowSeconds)
    (hstart : ∀ snap ∈ (observeMany cfg (studied cfg earlier) x.frame x.asof).2, snap.windowStart = kickoff) :
    ShowsBaseline cfg earlier x := by
  have hx : AtRate cfg r kickoff x := hrate x (by simp [own_concat ho])
  intro snap hsnap
  obtain ⟨hdanger, haccuracy⟩ := steady_counters hr ho hrate hsorted snap hsnap
  obtain ⟨-, hleague, hend, -⟩ := observeMany_snapshot cfg ho x.asof snap hsnap
  have hexpected : expectedDanger cfg snap = snap.dangerousAttacks := by
    rw [expected_full (hx.baseline snap hleague) (by rw [hend, hstart snap hsnap, htime]; ring), hdanger, minuteAt, htime]
    ring
  -- a positive number of attacks is at least 1
  have hone : (1 : ℚ) ≤ snap.dangerousAttacks := by
    have hlong : (0 : ℚ) < cfg.windowSeconds := by exact_mod_cast hpos
    have hattacks : (0 : ℚ) < snap.dangerousAttacks := by
      rw [hdanger, minuteAt, htime]
      exact mul_pos hr (by linarith)
    have hcount : 0 < snap.dangerousAttacks := by exact_mod_cast hattacks
    exact_mod_cast hcount
  refine ⟨by rw [divergence, haccuracy, hexpected]; ring, ?_⟩
  simp only [featureVector, hexpected]
  rw [max_eq_left (by linarith), div_self (by linarith)]

/-- From the first full window on, a frame at the rate shows no divergence iff it comes one
    window after kickoff. -/
theorem shows_baseline_iff (hr : 0 < r) (hfull : FullWindow cfg m earlier x)
    (hrate : ∀ y ∈ own m (earlier ++ [x]), AtRate cfg r kickoff y)
    (hsorted : ((own m (earlier ++ [x])).map (·.asof)).Pairwise (· ≤ ·)) :
    ShowsBaseline cfg earlier x ↔ 0 < cfg.windowSeconds ∧ x.asof = kickoff + cfg.windowSeconds := by
  obtain ⟨⟨clock, ho⟩, first, hfirst, hwhole⟩ := hfull
  have hkickoff : kickoff ≤ first.asof := by
    have := (hrate first (List.mem_of_head? hfirst)).started
    unfold minuteAt at this
    linarith
  constructor
  · intro h
    obtain ⟨hle, hlt⟩ := within_of_baseline hr ho hrate hsorted h
    have htime : x.asof = kickoff + cfg.windowSeconds := by linarith
    have hlong : (0 : ℚ) < cfg.windowSeconds := by linarith
    exact ⟨by exact_mod_cast hlong, htime⟩
  · intro h
    obtain ⟨hpos, htime⟩ := h
    have hoffset : first.asof = kickoff := by linarith
    have hstart := starts_at_kickoff ho hsorted hfirst (by linarith)
    rw [hoffset] at hstart
    exact baseline_of_window hr ho hrate hsorted hpos htime hstart

/-- A match at its league's rate shows no divergence from the first full window on iff no
    frame then comes later than one window after kickoff. -/
theorem baseline_rate_iff (hr : 0 < r) {rs : List Received} (hrate : ∀ x ∈ own m rs, AtRate cfg r kickoff x)
    (hsorted : ((own m rs).map (·.asof)).Pairwise (· ≤ ·)) :
    Each (fun earlier x => FullWindow cfg m earlier x → ShowsBaseline cfg earlier x) rs ↔
      Each (fun earlier x => FullWindow cfg m earlier x → 0 < cfg.windowSeconds ∧ x.asof = kickoff + cfg.windowSeconds) rs := by
  have hstep : ∀ earlier x later, rs = earlier ++ x :: later → FullWindow cfg m earlier x →
      (ShowsBaseline cfg earlier x ↔ 0 < cfg.windowSeconds ∧ x.asof = kickoff + cfg.windowSeconds) := by
    intro earlier x later hsplit hfull
    have hown : own m rs = own m (earlier ++ [x]) ++ own m later := by
      rw [hsplit, own, own, own, ← List.filter_append, List.append_assoc]
      rfl
    rw [hown] at hrate hsorted
    rw [List.map_append] at hsorted
    exact shows_baseline_iff hr hfull (fun y hy => hrate y (List.mem_append_left _ hy)) (List.pairwise_append.mp hsorted).1
  constructor
  · intro h earlier x later hsplit hfull
    exact (hstep earlier x later hsplit hfull).mp (h earlier x later hsplit hfull)
  · intro h earlier x later hsplit hfull
    exact (hstep earlier x later hsplit hfull).mpr (h earlier x later hsplit hfull)

end

end

/-! ## Two attacks a minute -/

/-- A frame of m1 with the attacks since kickoff. -/
def attackedFrame (clock : String) (attacks : Int) : Frame :=
  { matchID := some "m1"
    clock := some clock
    score := some ⟨some 0, some 0⟩
    scoreHome := none
    scoreAway := none
    league := some "england_premier_league"
    homeTeam := some "A"
    awayTeam := some "B"
    shots := some 0
    shotsOnTarget := some 0
    dangerousAttacks := some attacks
    possessionHome := some (1 / 2)
    markets := Table.empty.set "2H_1X2" (Table.empty.set "home" (some (21 / 10))) }

/-- The frames at these minutes of a match that kicked off at 0. -/
def steadyRun (minutes : List ℕ) : List Received :=
  minutes.map fun (k : ℕ) => ⟨attackedFrame (Text.itoa k ++ "'") (2 * k), 60 * k⟩

/-- The baselines fitted from those frames. -/
def steadySettings (w : ℕ) (minutes : List ℕ) : Settings :=
  ⟨w, recomputeDistributions ((steadyRun minutes).map (·.frame))⟩

theorem steadyRun_rate {w : ℕ} {minutes : List ℕ}
    (hfit : ((steadySettings w minutes).leagues.get? "england_premier_league").bind (·.get? "danger_per_minute") = some 2)
    (m : String) : ∀ x ∈ own m (steadyRun minutes), AtRate (steadySettings w minutes) 2 0 x := by
  intro x hx
  obtain ⟨k, -, rfl⟩ := List.mem_map.mp (List.mem_of_mem_filter hx)
  have hminute : minuteAt 0 ⟨attackedFrame (Text.itoa k ++ "'") (2 * k), 60 * k⟩ = k := by
    simp only [minuteAt]
    ring
  refine ⟨?_, ?_, rfl, fun snap hleague => baseline_of_fit ?_⟩
  · rw [hminute]
    exact Nat.cast_nonneg k
  · rw [hminute]
    show ((2 * k : Int) : ℚ) = 2 * k
    push_cast
    rfl
  · rw [hleague]
    exact hfit

theorem a_window_from_kickoff_shows_none : Each (fun earlier x =>
    FullWindow (steadySettings 600 [0, 2, 5, 10]) "m1" earlier x → ShowsBaseline (steadySettings 600 [0, 2, 5, 10]) earlier x)
    (steadyRun [0, 2, 5, 10]) := by
  have hrate : ∀ x ∈ own "m1" (steadyRun [0, 2, 5, 10]), AtRate (steadySettings 600 [0, 2, 5, 10]) 2 0 x :=
    steadyRun_rate (by decide +kernel) "m1"
  refine (baseline_rate_iff (by norm_num) hrate (by decide +kernel)).mpr ?_
  have htimes : ∀ x ∈ steadyRun [0, 2, 5, 10], 0 ≤ x.asof ∧ x.asof ≤ 600 := by decide +kernel
  intro earlier x later hsplit hfull
  obtain ⟨-, first, hfirst, hwhole⟩ := hfull
  have hin : first ∈ steadyRun [0, 2, 5, 10] := by
    have := List.mem_of_mem_filter (List.mem_of_head? hfirst)
    rw [hsplit]
    simp only [List.mem_append, List.mem_cons] at this ⊢
    tauto
  have hx := (htimes x (by rw [hsplit]; simp)).2
  have h0 := (htimes first hin).1
  have hw : ((steadySettings 600 [0, 2, 5, 10]).windowSeconds : ℚ) = 600 := rfl
  refine ⟨by decide, ?_⟩
  linarith

theorem a_steady_match_diverges : ¬ ∀ (cfg : Settings) (r kickoff : ℚ) (m : String) (rs : List Received), 0 < r →
    (∀ x ∈ own m rs, AtRate cfg r kickoff x) → ((own m rs).map (·.asof)).Pairwise (· ≤ ·) →
    Each (fun earlier x => FullWindow cfg m earlier x → ShowsBaseline cfg earlier x) rs := by
  intro h
  have hrun := h (steadySettings 750 [0, 5, 10, 13]) 2 0 "m1" (steadyRun [0, 5, 10, 13]) (by norm_num)
    (steadyRun_rate (by decide +kernel) "m1") (by decide +kernel)
  have ho : (attackedFrame "13'" 26).observed = some ("m1", "13'") := by decide +kernel
  have hlast := hrun (steadyRun [0, 5, 10]) ⟨attackedFrame "13'" 26, 780⟩ [] (by decide +kernel)
    ⟨⟨"13'", ho⟩, ⟨attackedFrame "0'" 0, 0⟩, by decide +kernel, by decide +kernel⟩
  have hdiverges : ∀ snap ∈ (observeMany (steadySettings 750 [0, 5, 10, 13])
      (studied (steadySettings 750 [0, 5, 10, 13]) (steadyRun [0, 5, 10])) (attackedFrame "13'" 26) 780).2,
      divergence (steadySettings 750 [0, 5, 10, 13]) snap = 10 := by decide +kernel
  obtain ⟨snap, hsnap⟩ := observeMany_market (steadySettings 750 [0, 5, 10, 13]) ho 780
  have h0 := (hlast snap hsnap).1
  rw [hdiverges snap hsnap] at h0
  norm_num at h0

end CasuyaLive.Analytics
