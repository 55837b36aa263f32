/-
  CasuyaLive.Analytics.FeatureStudy — the sliding-window observer of the analytics engine
  (analytics-engine-py, src/feature_study.py: `observe_many`, `collect_settled`,
  `_aggregate`, `feature_vector`).

  Times, odds and possession are exact rationals; the study window is a length in seconds
  and not negative. `now` is the `asof` of a replay or the wall clock of a live run. A study
  of one match depends on its window and its counters only (`SameFor`), so two studies that
  agree on them answer a frame of the match alike and agree afterwards
  (`observeMany_same`).
-/

import Mathlib.Data.List.Sort
import CasuyaLive.Lib.Run
import CasuyaLive.Analytics.Frame

namespace CasuyaLive.Analytics

open CasuyaLive.Lib

/-- The baselines of one league, by the name of the statistic. -/
abbrev LeagueBaseline := Table String ℚ

/-- What the environment and the calibration repository fix for a run. -/
structure Settings where
  windowSeconds : Nat
  leagues : Table String LeagueBaseline

/-- 12m30s windows and no baselines file. -/
def Settings.default : Settings := ⟨750, Table.empty⟩

/-- The standardised features of a snapshot. -/
structure Features where
  divergence : ℚ
  possessionGap : ℚ
  shotAccuracyGap : ℚ
  dangerIntensity : ℚ
  timePressure : ℚ
  scorePressure : ℚ
  homeBehind : ℚ
  deriving DecidableEq

/-- Aggregated momentum statistics for one windowed match. -/
structure MomentumFrame where
  matchID : String
  marketID : String
  league : String
  homeTeam : String
  awayTeam : String
  clock : String
  scoreHome : Int
  scoreAway : Int
  odds : Table String ℚ
  windowStart : ℚ
  windowEnd : ℚ
  shotsTotal : Int
  shotsOnTarget : Int
  dangerousAttacks : Int
  possessionHome : ℚ
  features : Option Features
  deriving DecidableEq

/-- One observed event retained inside a match's sliding window. -/
structure StudyEntry extends Counters where
  ts : ℚ
  clock : String
  scoreHome : Int
  scoreAway : Int
  possessionHome : ℚ
  deriving DecidableEq

/-- Final-state log of one market, for the audit after settlement. -/
structure SettledEntry where
  matchID : Option String
  marketID : String
  finalHome : Int
  finalAway : Int
  closingOdds : Table String ℚ
  predictedSide : String
  closureDelta : ℚ
  deriving DecidableEq

/-! ## Monotone counters -/

namespace Counters

def zero : Counters := ⟨0, 0, 0⟩

/-- A value lower than the one seen is replaced by it; a higher one is what is seen next. -/
def guardOne (seen value : Int) : Int := if value < seen then seen else value

def guard (seen value : Counters) : Counters :=
  ⟨guardOne seen.shots value.shots, guardOne seen.shotsOnTarget value.shotsOnTarget,
    guardOne seen.dangerousAttacks value.dangerousAttacks⟩

instance : LE Counters :=
  ⟨fun a b => a.shots ≤ b.shots ∧ a.shotsOnTarget ≤ b.shotsOnTarget ∧ a.dangerousAttacks ≤ b.dangerousAttacks⟩

instance (a b : Counters) : Decidable (a ≤ b) := inferInstanceAs (Decidable (_ ∧ _ ∧ _))

theorem guardOne_eq_max (a b : Int) : guardOne a b = max a b := by
  unfold guardOne
  split <;> omega

theorem le_refl (a : Counters) : a ≤ a := ⟨Int.le_refl _, Int.le_refl _, Int.le_refl _⟩

theorem guard_le_iff (a b c : Counters) : guard a b ≤ c ↔ a ≤ c ∧ b ≤ c := by
  show (_ ∧ _ ∧ _) ↔ (_ ∧ _ ∧ _) ∧ _ ∧ _ ∧ _
  simp only [guard, guardOne_eq_max]
  omega

theorem guard_comm (a b : Counters) : guard a b = guard b a := by
  simp only [guard, guardOne_eq_max, max_comm]

theorem guard_assoc (a b c : Counters) : guard (guard a b) c = guard a (guard b c) := by
  simp only [guard, guardOne_eq_max, max_assoc]

/-- Guarding changes nothing exactly when the value has reached what was seen. -/
theorem guard_eq_right (a b : Counters) : guard a b = b ↔ a ≤ b := by
  show _ ↔ _ ∧ _ ∧ _
  obtain ⟨b₁, b₂, b₃⟩ := b
  simp only [guard, guardOne_eq_max, mk.injEq]
  omega

end Counters

/-! ## The study -/

/-- The study's two stores, both by match id. -/
structure Study where
  windows : Table String (List StudyEntry)
  monotonic : Table String Counters
  deriving DecidableEq

namespace Study

/-- A fresh study. -/
def fresh : Study := ⟨Table.empty, Table.empty⟩

def window (s : Study) (m : String) : List StudyEntry := (s.windows.get? m).getD []

def seen (s : Study) (m : String) : Counters := (s.monotonic.get? m).getD Counters.zero

end Study

/-- `int` of a float: towards zero. -/
def truncate (q : ℚ) : Int := if 0 ≤ q then ⌊q⌋ else -⌊-q⌋

/-- The bucket an entry is folded into, when it is new. -/
def newBucket (e : StudyEntry) : StudyEntry :=
  { Counters.zero with ts := e.ts, clock := e.clock, scoreHome := e.scoreHome, scoreAway := e.scoreAway,
                       possessionHome := 1 / 2 }

def foldBucket (base e : StudyEntry) : StudyEntry :=
  { base with
    shots := max base.shots e.shots
    shotsOnTarget := max base.shotsOnTarget e.shotsOnTarget
    dangerousAttacks := max base.dangerousAttacks e.dangerousAttacks
    possessionHome := e.possessionHome }

def addToBuckets (buckets : Table Int StudyEntry) (e : StudyEntry) : Table Int StudyEntry :=
  let bucket := truncate (e.ts / 60)
  buckets.set bucket (foldBucket ((buckets.get? bucket).getD (newBucket e)) e)

/-- The window in 60-second buckets, by time. -/
def aggregate (entries : List StudyEntry) : List StudyEntry :=
  let buckets := entries.foldl addToBuckets Table.empty
  (buckets.entries.map (·.2)).insertionSort fun a b => a.ts ≤ b.ts

/-- `max` of a list, 0 when it is empty. -/
def maxOf (l : List Int) : Int := l.max?.getD 0

/-- The prices of the three sides that have one. -/
def sideOdds (quotes : Quotes) : Table String ℚ :=
  ["home", "draw", "away"].foldl (fun odds side =>
    match (quotes.get? side).join with
    | some price => odds.set side price
    | none => odds) Table.empty

def entryOf (f : Frame) (clock : String) (counters : Counters) (now : ℚ) : StudyEntry :=
  { counters with
    ts := now
    clock := clock
    scoreHome := f.scores.1
    scoreAway := f.scores.2
    possessionHome := f.possessionHome.getD (1 / 2) }

/-- The entries no older than the study window. -/
def prune (windowSeconds : Nat) (now : ℚ) (window : List StudyEntry) : List StudyEntry :=
  window.filter fun e => now - windowSeconds ≤ e.ts

/-- The snapshot of one market. -/
def snapshot (f : Frame) (m clock : String) (now : ℚ) (window : List StudyEntry) (market : String × Quotes) :
    MomentumFrame :=
  let momentum := aggregate window
  { matchID := m
    marketID := market.1
    league := f.league.getD ""
    homeTeam := f.homeTeam.getD ""
    awayTeam := f.awayTeam.getD ""
    clock := clock
    -- the window holds the new entry at least
    scoreHome := (window.getLast?.map (·.scoreHome)).getD 0
    scoreAway := (window.getLast?.map (·.scoreAway)).getD 0
    odds := sideOdds market.2
    windowStart := (window.head?.map (·.ts)).getD now
    windowEnd := now
    shotsTotal := maxOf (momentum.map (·.shots))
    shotsOnTarget := maxOf (momentum.map (·.shotsOnTarget))
    dangerousAttacks := maxOf (momentum.map (·.dangerousAttacks))
    possessionHome := (momentum.map (·.possessionHome)).sum / max momentum.length 1
    features := none }

/-- Append the frame once, then fold one snapshot per market. -/
def observeMany (cfg : Settings) (s : Study) (f : Frame) (now : ℚ) : Study × List MomentumFrame :=
  match f.observed with
  | none => (s, [])
  | some (m, clock) =>
    let counters := (s.seen m).guard f.counters
    let window := prune cfg.windowSeconds now (s.window m ++ [entryOf f clock counters now])
    (⟨s.windows.set m window, s.monotonic.set m counters⟩, f.markets.entries.map (snapshot f m clock now window))

/-- The quotes that are there. -/
def closingOdds (quotes : Quotes) : Table String ℚ :=
  quotes.entries.foldl (fun odds x =>
    match x.2 with
    | some price => odds.set x.1 price
    | none => odds) Table.empty

/-- Settled entries when a frame declares a final score; the match's window goes. -/
def collectSettled (s : Study) (f : Frame) : Study × List SettledEntry :=
  if f.isFinal then
    let windows :=
      match f.matchID with
      | some m => if m == "" then s.windows else s.windows.erase m
      | none => s.windows
    (⟨windows, s.monotonic⟩, f.markets.entries.map fun x =>
      { matchID := f.matchID
        marketID := x.1
        finalHome := f.scores.1
        finalAway := f.scores.2
        closingOdds := closingOdds x.2
        predictedSide := ""
        closureDelta := 0 })
  else (s, [])

/-! ## Features -/

structure Baseline where
  dangerPerMinute : ℚ
  possessionHome : ℚ
  shotAccuracy : ℚ

/-- The league's own baselines, or the default league's, or the built-in ones. -/
def baselineFor (cfg : Settings) (snap : MomentumFrame) : Baseline :=
  let listed := (cfg.leagues.get? snap.league).getD Table.empty
  let league := if listed.entries.isEmpty then (cfg.leagues.get? "default").getD Table.empty else listed
  ⟨(league.get? "danger_per_minute").getD (5 / 2), (league.get? "possession_home").getD (1 / 2),
    (league.get? "shot_accuracy").getD (33 / 100)⟩

def shotAccuracy (snap : MomentumFrame) : ℚ :=
  if snap.shotsTotal ≤ 0 then 0 else (snap.shotsOnTarget : ℚ) / snap.shotsTotal

/-- Baseline dangerous attacks over the part of the window observed so far. -/
def expectedDanger (cfg : Settings) (snap : MomentumFrame) : ℚ :=
  let minutes := max (snap.windowEnd - snap.windowStart) 30 / 60
  (baselineFor cfg snap).dangerPerMinute * min minutes (cfg.windowSeconds / 60)

def divergence (cfg : Settings) (snap : MomentumFrame) : ℚ :=
  snap.dangerousAttacks * (1 + shotAccuracy snap) - expectedDanger cfg snap

def featureVector (cfg : Settings) (snap : MomentumFrame) : Features :=
  let baseline := baselineFor cfg snap
  { divergence := divergence cfg snap
    possessionGap := snap.possessionHome - baseline.possessionHome
    shotAccuracyGap := shotAccuracy snap - baseline.shotAccuracy
    dangerIntensity := snap.dangerousAttacks / max (expectedDanger cfg snap) (1 / 1000000)
    timePressure :=
      match parseClockMinute snap.clock with
      | some minute => minute / 90
      | none => 1
    scorePressure := (snap.scoreHome + snap.scoreAway : Int)
    homeBehind := if snap.scoreHome < snap.scoreAway then 1 else 0 }

/-- The snapshot with its features, as the filter reads it. -/
def withFeatures (cfg : Settings) (snap : MomentumFrame) : MomentumFrame :=
  { snap with features := some (featureVector cfg snap) }

/-! ## Buckets -/

theorem addToBuckets_get (buckets : Table Int StudyEntry) (e : StudyEntry) (k : Int) :
    (addToBuckets buckets e).get? k =
      if k = truncate (e.ts / 60) then some (foldBucket ((buckets.get? (truncate (e.ts / 60))).getD (newBucket e)) e)
      else buckets.get? k := Table.get?_set _ _ _ _

theorem mem_aggregate (entries : List StudyEntry) (b : StudyEntry) :
    b ∈ aggregate entries ↔ ∃ k, (entries.foldl addToBuckets Table.empty).get? k = some b := by
  rw [aggregate, List.mem_insertionSort, List.mem_map]
  constructor
  · intro h
    obtain ⟨⟨k, b'⟩, hin, rfl⟩ := h
    exact ⟨k, (Table.mem_iff _ _ _).mp hin⟩
  · intro h
    obtain ⟨k, hk⟩ := h
    exact ⟨(k, b), (Table.mem_iff _ _ _).mpr hk, rfl⟩

/-- What folding an entry into its new bucket gives, and into an old one keeps, every bucket
    has. -/
theorem aggregate_inv (P : StudyEntry → Prop) {entries : List StudyEntry}
    (hfold : ∀ e ∈ entries, ∀ base, base = newBucket e ∨ P base → P (foldBucket base e)) : ∀ b ∈ aggregate entries, P b := by
  have hbuckets : ∀ k b, (entries.foldl addToBuckets Table.empty).get? k = some b → P b := by
    refine run_inv (C := fun _ e => ∀ base, base = newBucket e ∨ P base → P (foldBucket base e))
      (fun buckets : Table Int StudyEntry => ∀ k b, buckets.get? k = some b → P b) ?_ (by simp) (meets_forall.mpr hfold)
    intro buckets e hbuckets hfold k b hk
    rw [addToBuckets_get] at hk
    split at hk
    · cases hk
      refine hfold _ ?_
      cases hold : buckets.get? (truncate (e.ts / 60)) with
      | none => exact Or.inl rfl
      | some base => exact Or.inr (hbuckets _ base hold)
    · exact hbuckets k b hk
  intro b hb
  obtain ⟨k, hk⟩ := (mem_aggregate entries b).mp hb
  exact hbuckets k b hk

/-! ## One match -/

/-- The two studies hold the same of one match. -/
structure SameFor (m : String) (s t : Study) : Prop where
  window : s.window m = t.window m
  seen : s.seen m = t.seen m

variable (cfg : Settings)

@[simp] theorem observeMany_none (s : Study) {f : Frame} (h : f.observed = none) (now : ℚ) :
    observeMany cfg s f now = (s, []) := by
  simp only [observeMany, h]

theorem observeMany_some (s : Study) {f : Frame} {m clock : String} (h : f.observed = some (m, clock)) (now : ℚ) :
    observeMany cfg s f now =
      (⟨s.windows.set m (prune cfg.windowSeconds now (s.window m ++ [entryOf f clock ((s.seen m).guard f.counters) now])),
        s.monotonic.set m ((s.seen m).guard f.counters)⟩,
       f.markets.entries.map (snapshot f m clock now
        (prune cfg.windowSeconds now (s.window m ++ [entryOf f clock ((s.seen m).guard f.counters) now])))) := by
  simp only [observeMany, h]

theorem observeMany_window (s : Study) {f : Frame} {m clock : String} (h : f.observed = some (m, clock)) (now : ℚ) :
    (observeMany cfg s f now).1.window m =
      prune cfg.windowSeconds now (s.window m ++ [entryOf f clock ((s.seen m).guard f.counters) now]) := by
  simp [observeMany_some cfg s h, Study.window]

theorem observeMany_seen (s : Study) {f : Frame} {m clock : String} (h : f.observed = some (m, clock)) (now : ℚ) :
    (observeMany cfg s f now).1.seen m = (s.seen m).guard f.counters := by
  simp [observeMany_some cfg s h, Study.seen]

/-- A snapshot is of one market of an observed frame, over the window with the new entry. -/
theorem observeMany_mem {s : Study} {f : Frame} {now : ℚ} {snap : MomentumFrame} (h : snap ∈ (observeMany cfg s f now).2) :
    ∃ m clock market, f.observed = some (m, clock) ∧
      snap = snapshot f m clock now
        (prune cfg.windowSeconds now (s.window m ++ [entryOf f clock ((s.seen m).guard f.counters) now])) market := by
  cases ho : f.observed with
  | none =>
    rw [observeMany_none cfg _ ho] at h
    cases h
  | some x =>
    obtain ⟨m, clock⟩ := x
    rw [observeMany_some cfg _ ho] at h
    obtain ⟨market, -, rfl⟩ := List.mem_map.mp h
    exact ⟨m, clock, market, rfl, rfl⟩

/-- Snapshots are of the frame's match. -/
theorem observeMany_matchID (s : Study) (f : Frame) (now : ℚ) : ∀ x ∈ (observeMany cfg s f now).2, f.matchID = some x.matchID := by
  intro x hx
  obtain ⟨m, clock, market, ho, rfl⟩ := observeMany_mem cfg hx
  exact Frame.observed_matchID ho

/-- Studies that agree on the match answer its frame alike and still agree. -/
theorem observeMany_same {m : String} {s t : Study} (h : SameFor m s t) {f : Frame} (hm : f.matchID = some m) (now : ℚ) :
    (observeMany cfg s f now).2 = (observeMany cfg t f now).2 ∧
      SameFor m (observeMany cfg s f now).1 (observeMany cfg t f now).1 := by
  cases ho : f.observed with
  | none =>
    rw [observeMany_none cfg s ho, observeMany_none cfg t ho]
    exact ⟨rfl, h⟩
  | some x =>
    obtain ⟨m', clock⟩ := x
    have hid := Frame.observed_id hm ho
    subst hid
    refine ⟨?_, ?_, ?_⟩
    · rw [observeMany_some cfg s ho, observeMany_some cfg t ho, h.window, h.seen]
    · rw [observeMany_window cfg s ho, observeMany_window cfg t ho, h.window, h.seen]
    · rw [observeMany_seen cfg s ho, observeMany_seen cfg t ho, h.seen]

/-- A frame of another match leaves the match alone. -/
theorem observeMany_other (s : Study) {m : String} {f : Frame} (hm : f.matchID ≠ some m) (now : ℚ) :
    SameFor m (observeMany cfg s f now).1 s := by
  cases ho : f.observed with
  | none =>
    rw [observeMany_none cfg s ho]
    exact ⟨rfl, rfl⟩
  | some x =>
    obtain ⟨m', clock⟩ := x
    have hne : m ≠ m' := by
      intro e
      exact hm (by rw [Frame.observed_matchID ho, e])
    rw [observeMany_some cfg s ho]
    exact ⟨by simp [Study.window, hne], by simp [Study.seen, hne]⟩

theorem collectSettled_entries (s : Study) {f : Frame} (h : (collectSettled s f).2 ≠ []) : f.isFinal = true := by
  by_contra hno
  exact h (by simp [collectSettled, hno])

theorem collectSettled_open (s : Study) {f : Frame} (h : f.isFinal = false) : collectSettled s f = (s, []) := by
  simp [collectSettled, h]

/-- A settlement leaves nothing in a window that was not there. -/
theorem collectSettled_window (s : Study) (f : Frame) (m : String) {e : StudyEntry}
    (h : e ∈ (collectSettled s f).1.window m) : e ∈ s.window m := by
  unfold collectSettled at h
  split at h
  · simp only [Study.window] at h ⊢
    split at h
    · split at h
      · exact h
      · rw [Table.get?_erase] at h
        split at h
        · simp at h
        · exact h
    · exact h
  · exact h

/-- A final frame empties the match's window; its counters stay. -/
theorem collectSettled_final (s : Study) {f : Frame} (h : f.isFinal = true) {m : String} (hm : f.matchID = some m)
    (hne : m ≠ "") : (collectSettled s f).1.window m = [] ∧ (collectSettled s f).1.seen m = s.seen m := by
  simp [collectSettled, h, hm, hne, Study.window, Study.seen]

end CasuyaLive.Analytics
