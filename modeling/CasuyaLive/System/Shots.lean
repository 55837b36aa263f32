/-
  CasuyaLive.System.Shots — the shots of the home side from the board's statistics to the
  accuracy the study reads off them (data-ingestion-go, internal/helabet/poller.go:
  `statByID`, `shotsOnTargetOf`, `shotsOf`, `toMatch`; analytics-engine-py,
  src/feature_study.py: `observe_many`, `shot_accuracy`).

  Item 59 counts the shots on target, item 60 those off target. `shots_iff`: a published
  frame carries both as they are named, and the study their ratio, exactly when no shot went
  off target: `shotsOnTargetOf` adds the two up as `shotsOf` does
  (`shots_off_target_count_as_on_target`). The items are read as doubles and their sum is
  cut to 64 bits, so the shots on target have to be a number of both kinds.
-/

import CasuyaLive.Analytics.Momentum
import CasuyaLive.System.Possession

namespace CasuyaLive.System

open CasuyaLive.Lib CasuyaLive.Lib.Text CasuyaLive.Analytics CasuyaLive.Ingest CasuyaLive.Ingest.Stream

/-! ## The items -/

/-- The first item with the id reads `v`. -/
def Carries (items : List Helabet.StatItem) (id : Int) (v : ℚ) : Prop :=
  ∃ pre post, items = pre ++ ⟨id, some v⟩ :: post ∧ ∀ item ∈ pre, item.id ≠ id

theorem statByID_iff (items : List Helabet.StatItem) (id : Int) (v : ℚ) :
    Helabet.statByID items id = some v ↔ Carries items id v := by
  unfold Helabet.statByID
  constructor
  · intro h
    obtain ⟨⟨i, s1⟩, hfind, hs1⟩ := Option.bind_eq_some_iff.mp h
    obtain ⟨hid, pre, post, hsplit, hpre⟩ := List.find?_eq_some_iff_append.mp hfind
    have hi : i = id := by simpa using hid
    have hv : s1 = some v := hs1
    rw [hi, hv] at hsplit
    exact ⟨pre, post, hsplit, fun item hitem => by simpa using hpre item hitem⟩
  · intro h
    obtain ⟨pre, post, rfl, hpre⟩ := h
    have hfind : (pre ++ ⟨id, some v⟩ :: post).find? (fun item => item.id == id) = some ⟨id, some v⟩ := by
      refine List.find?_eq_some_iff_append.mpr ⟨by simp, pre, post, rfl, fun item hitem => ?_⟩
      simpa using hpre item hitem
    rw [hfind]
    rfl

/-- The integer of the sum of two doubles. -/
def summed (on off : ℕ) : Int := (Float64.nearest on + Float64.nearest off).toInt

/-- Both aggregators add up the two items. -/
theorem shots_summed {raw : Helabet.RawMatch} {on off : ℕ} (hon : Carries (Helabet.statsOf raw) 59 on)
    (hoff : Carries (Helabet.statsOf raw) 60 off) :
    Helabet.shotsOnTargetOf raw = summed on off ∧ Helabet.shotsOf raw = summed on off := by
  rw [Helabet.shotsOnTargetOf, Helabet.shotsOf, (statByID_iff _ _ _).mpr hon, (statByID_iff _ _ _).mpr hoff]
  exact ⟨rfl, rfl⟩

/-- The count is kept by a float64 and by an int64. -/
def Counted (on : ℕ) : Prop := Float64.nearest on = .finite on ∧ on < 2 ^ 63

instance (on : ℕ) : Decidable (Counted on) := inferInstanceAs (Decidable (_ ∧ _))

theorem summed_zero (on : ℕ) : summed on 0 = on ↔ Counted on := by
  have hzero : Float64.nearest ((0 : ℕ) : ℚ) = 0 := by decide +kernel
  rw [summed, hzero, Float64.nearest_add_zero]
  exact Float64.toInt_nearest_natCast on

/-! ## The study -/

section

variable (cfg : Settings)

theorem collectSettled_capped {m : String} {s : Study} (h : Capped m s) (f : Frame) : Capped m (collectSettled s f).1 := by
  refine ⟨by rw [collectSettled_seen]; exact h.zero, fun e he => ?_⟩
  rw [collectSettled_seen]
  exact h.window e (collectSettled_window s f m he)

theorem feed_capped {m : String} {s : Study} (h : Capped m s) (r : Received) : Capped m (feed cfg s r).1 :=
  observeMany_capped cfg (collectSettled_capped h r.frame) r.frame r.asof

theorem run_capped (m : String) (rs : List Received) : Capped m (after (feed cfg) Study.fresh rs) :=
  fold_inv (Capped m) (fun _ r h => feed_capped cfg h r) rs (fresh_capped m)

/-- No more shots are seen of the match than these. -/
def ShotsAtMost (m : String) (total onTarget : Int) (s : Study) : Prop :=
  (s.seen m).shots ≤ total ∧ (s.seen m).shotsOnTarget ≤ onTarget

theorem feed_atMost {m : String} {total onTarget : Int} {s : Study} (h : ShotsAtMost m total onTarget s) {r : Received}
    (hr : r.frame.matchID = some m → r.frame.counters.shots ≤ total ∧ r.frame.counters.shotsOnTarget ≤ onTarget) :
    ShotsAtMost m total onTarget (feed cfg s r).1 := by
  have hkept : ShotsAtMost m total onTarget (collectSettled s r.frame).1 := by
    rwa [ShotsAtMost, collectSettled_seen]
  by_cases hm : r.frame.matchID = some m
  · obtain ⟨hshots, hon⟩ := hr hm
    cases ho : r.frame.observed with
    | none =>
      simp only [feed, observeMany_none cfg _ ho]
      exact hkept
    | some x =>
      obtain ⟨m', clock⟩ := x
      have hid := Frame.observed_id hm ho
      subst hid
      simp only [feed, ShotsAtMost, observeMany_seen cfg _ ho, Counters.guard, Counters.guardOne_eq_max]
      exact ⟨max_le hkept.1 hshots, max_le hkept.2 hon⟩
  · have hsame := observeMany_other cfg (collectSettled s r.frame).1 hm r.asof
    simp only [feed, ShotsAtMost, hsame.seen]
    exact hkept

/-- After frames that show no more shots of the match, a snapshot carries the frame's. -/
theorem feed_shots {m : String} {total onTarget : Int} {earlier : List Received} {f : Frame} (hm : f.matchID = some m)
    (hf : f.counters.shots = total ∧ f.counters.shotsOnTarget = onTarget) (h0 : 0 ≤ total ∧ 0 ≤ onTarget)
    (hearlier : ∀ r ∈ earlier, r.frame.matchID = some m →
      r.frame.counters.shots ≤ total ∧ r.frame.counters.shotsOnTarget ≤ onTarget) (now : ℚ) :
    ∀ snap ∈ (feed cfg (after (feed cfg) Study.fresh earlier) ⟨f, now⟩).2,
      snap.shotsTotal = total ∧ snap.shotsOnTarget = onTarget := by
  have hseen : ShotsAtMost m total onTarget (after (feed cfg) Study.fresh earlier) :=
    run_inv (ShotsAtMost m total onTarget) (fun _ _ hs hr => feed_atMost cfg hs hr) h0 (meets_forall.mpr hearlier)
  intro snap hsnap
  obtain ⟨bare, hbare, rfl⟩ := List.mem_map.mp hsnap
  have hid := observeMany_matchID cfg _ f now bare hbare
  rw [hm, Option.some.injEq] at hid
  have hcapped : Capped bare.matchID (collectSettled (after (feed cfg) Study.fresh earlier) f).1 :=
    collectSettled_capped (run_capped cfg bare.matchID earlier) f
  have hcounters := snapshot_seen cfg now bare hbare hcapped
  rw [← hid, collectSettled_seen, Counters.guard] at hcounters
  simp only [Counters.guardOne_eq_max, Counters.mk.injEq, hf.1, hf.2, max_eq_right hseen.1, max_eq_right hseen.2] at hcounters
  exact ⟨hcounters.1, hcounters.2.1⟩

end

/-! ## End to end -/

/-- The frame carries the shots as they are named, and so does the study after any frames
    that show no more of them. -/
structure MapsShots (m : Match) (on off : ℕ) : Prop where
  onTarget : m.shotsOnTarget = on
  total : m.shots = on + off
  within : m.shotsOnTarget ≤ m.shots
  accuracy : ∀ cfg, ∀ earlier : List Received,
    (∀ r ∈ earlier, r.frame.matchID = some m.matchID →
      r.frame.counters.shots ≤ on + off ∧ r.frame.counters.shotsOnTarget ≤ on) →
    ∀ now, ∀ snap ∈ (feed cfg (after (feed cfg) Study.fresh earlier) ⟨asRead m, now⟩).2,
      shotAccuracy snap = on / (on + off)

theorem ratio_of_counts {snap : MomentumFrame} {on off : ℕ} (htotal : snap.shotsTotal = on + off)
    (hon : snap.shotsOnTarget = on) : shotAccuracy snap = on / (on + off) := by
  unfold shotAccuracy
  rw [htotal, hon]
  split
  · have hzero : on = 0 := by omega
    simp [hzero]
  · push_cast
    rfl

theorem mapsShots_of_counts {m : Match} {on off : ℕ} (hon : m.shotsOnTarget = on) (htotal : m.shots = on + off) :
    MapsShots m on off := by
  refine ⟨hon, htotal, by omega, fun cfg earlier hearlier now snap hsnap => ?_⟩
  obtain ⟨h1, h2⟩ := feed_shots cfg (f := asRead m) rfl ⟨htotal, hon⟩ (by omega) hearlier now snap hsnap
  exact ratio_of_counts h1 h2

/-- The shots are mapped as they are named exactly when none went off target, and those on
    target are few enough for the machine's numbers. -/
theorem shots_iff {raw : Helabet.RawMatch} {k : Kind} {m : Match} (hm : Publishes (.helabet raw) k m) {on off : ℕ}
    (hon : Carries (Helabet.statsOf raw) 59 on) (hoff : Carries (Helabet.statsOf raw) 60 off) :
    MapsShots m on off ↔ off = 0 ∧ Counted on := by
  obtain ⟨hshots, htarget, -, -⟩ := publishes_helabet hm
  obtain ⟨hsumOn, hsum⟩ := shots_summed hon hoff
  rw [hsumOn] at htarget
  rw [hsum] at hshots
  constructor
  · intro h
    have hon' := h.onTarget
    have htotal := h.total
    obtain rfl : off = 0 := by omega
    exact ⟨rfl, (summed_zero on).mp (by omega)⟩
  · intro h
    obtain ⟨rfl, hcounted⟩ := h
    have hsame := (summed_zero on).mpr hcounted
    exact mapsShots_of_counts (by omega) (by omega)

/-- A football entry with these shots of the home side on and off target. -/
def shotsEntry (on off : ℚ) : Helabet.RawMatch :=
  { id := 7
    sport := ⟨1, "Football"⟩
    liga := "League"
    opponent1 := "Home"
    opponent2 := "Away"
    scores := some ⟨0, 0, "31 minutes", 1, none, some [⟨29, some 33⟩, ⟨60, some off⟩, ⟨59, some on⟩]⟩
    eventGroups := [⟨1, [[⟨1, 2⟩, ⟨2, 3⟩, ⟨3, 4⟩]]⟩]
    startTs := 1714571280 }

theorem shotsEntry_carries (on off : ℚ) : Carries (Helabet.statsOf (shotsEntry on off)) 59 on ∧
    Carries (Helabet.statsOf (shotsEntry on off)) 60 off :=
  ⟨⟨[⟨29, some 33⟩, ⟨60, some off⟩], [], rfl, by simp⟩, ⟨[⟨29, some 33⟩], [⟨59, some on⟩], rfl, by simp⟩⟩

theorem shots_on_target_only : ∃ m, Publishes (.helabet (shotsEntry 1 0)) .live m ∧ MapsShots m 1 0 := by
  obtain ⟨m, hm⟩ : ∃ m, Helabet.toMatch 0 (shotsEntry 1 0) = some m := Option.isSome_iff_exists.mp (by decide +kernel)
  have hpub : Publishes (.helabet (shotsEntry 1 0)) .live m := ⟨0, hm⟩
  obtain ⟨hon, hoff⟩ := shotsEntry_carries 1 0
  exact ⟨m, hpub, (shots_iff hpub (by exact_mod_cast hon) (by exact_mod_cast hoff)).mpr ⟨rfl, by decide +kernel⟩⟩

theorem shots_off_target_count_as_on_target : ¬ ∀ raw k m (on off : ℕ), Publishes (.helabet raw) k m →
    Carries (Helabet.statsOf raw) 59 on → Carries (Helabet.statsOf raw) 60 off → MapsShots m on off := by
  intro h
  obtain ⟨m, hm⟩ : ∃ m, Helabet.toMatch 0 (shotsEntry 3 2) = some m := Option.isSome_iff_exists.mp (by decide +kernel)
  obtain ⟨hon, hoff⟩ := shotsEntry_carries 3 2
  have hmaps := h _ .live m 3 2 ⟨0, hm⟩ (by exact_mod_cast hon) (by exact_mod_cast hoff)
  have htarget := hmaps.onTarget
  rw [(helabet_statistics hm).2.1] at htarget
  revert htarget
  decide +kernel

end CasuyaLive.System
