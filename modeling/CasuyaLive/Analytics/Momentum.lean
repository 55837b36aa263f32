/-
  CasuyaLive.Analytics.Momentum — the counters and the window of a match over any run of
  `observe_many` (analytics-engine-py, src/feature_study.py: `observe_many`, `_aggregate`).

  Frames of several matches may alternate, the counters may fall and the times run in any
  order. Each match has its high-water mark (`studied_seen`); every entry of its window is
  below it (`Capped`), and the newest entry, which is never pruned at its own time, is at it
  (`snapshot_seen`). `counters_never_rewind`: so each market of an observed frame gets a
  snapshot with the running maxima, and when the times of the match do not run backwards its
  window is what was observed since the cutoff (`studied_window`).
-/

import CasuyaLive.Analytics.Replay

namespace CasuyaLive.Analytics

open CasuyaLive.Lib

/-- The study after the frames, each observed at its own time. -/
def studied (cfg : Settings) (rs : List Received) : Study :=
  rs.foldl (fun s r => (observeMany cfg s r.frame r.asof).1) Study.fresh

/-- The frames of the match that are not skipped. -/
def own (m : String) (rs : List Received) : List Received := rs.filter fun r => r.frame.observed.any (·.1 == m)

def runningMax (l : List Int) : Int := l.foldl max 0

def highWater (rs : List Received) : Counters := (rs.map (·.frame.counters)).foldl Counters.guard Counters.zero

/-- The entries that frames leave, from what was seen before them. -/
def entriesFrom : Counters → List Received → List StudyEntry
  | _, [] => []
  | seen, r :: rs =>
    entryOf r.frame (r.frame.clock.getD "") (seen.guard r.frame.counters) r.asof :: entriesFrom (seen.guard r.frame.counters) rs

/-- Every entry of the match so far, pruned or not. -/
def observedEntries (m : String) (rs : List Received) : List StudyEntry := entriesFrom Counters.zero (own m rs)

/-! ## Buckets -/

namespace Counters

theorem le_trans {a b c : Counters} (hab : a ≤ b) (hbc : b ≤ c) : a ≤ c :=
  ⟨Int.le_trans hab.1 hbc.1, Int.le_trans hab.2.1 hbc.2.1, Int.le_trans hab.2.2 hbc.2.2⟩

theorem le_guard_left (a b : Counters) : a ≤ guard a b := ((guard_le_iff a b _).mp (le_refl _)).1

theorem le_guard_right (a b : Counters) : b ≤ guard a b := ((guard_le_iff a b _).mp (le_refl _)).2

end Counters

theorem foldBucket_counters (base e : StudyEntry) : (foldBucket base e).toCounters = base.toCounters.guard e.toCounters := by
  simp only [foldBucket, Counters.guard, Counters.guardOne_eq_max]

/-- Some bucket has reached `c`. -/
def Reached (c : Counters) (buckets : Table Int StudyEntry) : Prop := ∃ k b, buckets.get? k = some b ∧ c ≤ b.toCounters

theorem add_reached {c : Counters} {buckets : Table Int StudyEntry} (h : Reached c buckets) (e : StudyEntry) :
    Reached c (addToBuckets buckets e) := by
  obtain ⟨k, b, hk, hc⟩ := h
  by_cases hkey : k = truncate (e.ts / 60)
  · refine ⟨k, foldBucket b e, ?_, ?_⟩
    · rw [addToBuckets_get, if_pos hkey, ← hkey, hk, Option.getD_some]
    · rw [foldBucket_counters]
      exact Counters.le_trans hc (Counters.le_guard_left _ _)
  · exact ⟨k, b, by rw [addToBuckets_get, if_neg hkey, hk], hc⟩

theorem add_reaches (buckets : Table Int StudyEntry) (e : StudyEntry) : Reached e.toCounters (addToBuckets buckets e) := by
  refine ⟨truncate (e.ts / 60), _, by rw [addToBuckets_get, if_pos rfl], ?_⟩
  rw [foldBucket_counters]
  exact Counters.le_guard_right _ _

theorem buckets_reached {entries : List StudyEntry} {e : StudyEntry} (he : e ∈ entries) :
    Reached e.toCounters (entries.foldl addToBuckets Table.empty) := by
  have hkeep : ∀ (l : List StudyEntry) (buckets : Table Int StudyEntry), Reached e.toCounters buckets →
      Reached e.toCounters (l.foldl addToBuckets buckets) := by
    intro l
    induction l with
    | nil => intro buckets h; exact h
    | cons x l ih => intro buckets h; exact ih _ (add_reached h x)
  obtain ⟨pre, post, rfl⟩ := List.append_of_mem he
  rw [List.foldl_append, List.foldl_cons]
  exact hkeep post _ (add_reaches _ e)

theorem aggregate_below {top : Counters} (h0 : Counters.zero ≤ top) {entries : List StudyEntry}
    (h : ∀ e ∈ entries, e.toCounters ≤ top) : ∀ b ∈ aggregate entries, b.toCounters ≤ top := by
  refine aggregate_inv (fun b => b.toCounters ≤ top) fun e he base hbase => ?_
  rw [foldBucket_counters, Counters.guard_le_iff]
  refine ⟨?_, h e he⟩
  rcases hbase with rfl | hbase
  · exact h0
  · exact hbase

/-- The maximum of a list is the bound that one of its elements reaches. -/
theorem maxOf_eq {l : List Int} {x : Int} (hle : ∀ y ∈ l, y ≤ x) (hge : ∃ y ∈ l, x ≤ y) : maxOf l = x := by
  obtain ⟨y, hy, hxy⟩ := hge
  have hmem : x ∈ l := by
    have := hle y hy
    rwa [show x = y by omega]
  have hmax : l.max? = some x := List.max?_eq_some_iff.mpr ⟨hmem, hle⟩
  rw [maxOf, hmax, Option.getD_some]

/-- A window below a mark that one of its entries is at. -/
theorem aggregate_top {entries : List StudyEntry} {e : StudyEntry} (he : e ∈ entries) (h0 : Counters.zero ≤ e.toCounters)
    (h : ∀ x ∈ entries, x.toCounters ≤ e.toCounters) :
    maxOf ((aggregate entries).map (·.shots)) = e.shots ∧ maxOf ((aggregate entries).map (·.shotsOnTarget)) = e.shotsOnTarget ∧
      maxOf ((aggregate entries).map (·.dangerousAttacks)) = e.dangerousAttacks := by
  have hbelow := aggregate_below h0 h
  obtain ⟨k, b, hk, hreach⟩ := buckets_reached he
  have hb := (mem_aggregate entries b).mpr ⟨k, hk⟩
  refine ⟨maxOf_eq ?_ ?_, maxOf_eq ?_ ?_, maxOf_eq ?_ ?_⟩
  · exact List.forall_mem_map.mpr fun x hx => (hbelow x hx).1
  · exact ⟨b.shots, List.mem_map_of_mem hb, hreach.1⟩
  · exact List.forall_mem_map.mpr fun x hx => (hbelow x hx).2.1
  · exact ⟨b.shotsOnTarget, List.mem_map_of_mem hb, hreach.2.1⟩
  · exact List.forall_mem_map.mpr fun x hx => (hbelow x hx).2.2
  · exact ⟨b.dangerousAttacks, List.mem_map_of_mem hb, hreach.2.2⟩

/-! ## One frame -/

section

variable (cfg : Settings)

/-- The counters kept of the match are at least 0 and cap its window. -/
structure Capped (m : String) (s : Study) : Prop where
  zero : Counters.zero ≤ s.seen m
  window : ∀ e ∈ s.window m, e.toCounters ≤ s.seen m

theorem fresh_capped (m : String) : Capped m Study.fresh := by
  refine ⟨Counters.le_refl _, fun e he => ?_⟩
  simp [Study.fresh, Study.window] at he

theorem Capped.of_same {m : String} {s t : Study} (h : Capped m t) (hsame : SameFor m s t) : Capped m s :=
  ⟨by rw [hsame.seen]; exact h.zero, by rw [hsame.window, hsame.seen]; exact h.window⟩

/-- The counters after a frame cap the window with its entry. -/
theorem Capped.entries {m : String} {s : Study} (h : Capped m s) (f : Frame) (clock : String) (now : ℚ) :
    ∀ e ∈ prune cfg.windowSeconds now (s.window m ++ [entryOf f clock ((s.seen m).guard f.counters) now]),
      e.toCounters ≤ (s.seen m).guard f.counters := by
  intro e he
  rcases List.mem_append.mp (List.mem_filter.mp he).1 with he | he
  · exact Counters.le_trans (h.window e he) (Counters.le_guard_left _ _)
  · rw [List.mem_singleton.mp he]
    exact Counters.le_refl _

theorem observeMany_capped {m : String} {s : Study} (h : Capped m s) (f : Frame) (now : ℚ) :
    Capped m (observeMany cfg s f now).1 := by
  by_cases hm : f.matchID = some m
  · cases ho : f.observed with
    | none => rwa [observeMany_none cfg s ho]
    | some x =>
      obtain ⟨m', clock⟩ := x
      have hid := Frame.observed_id hm ho
      subst hid
      refine ⟨?_, ?_⟩
      · rw [observeMany_seen cfg s ho]
        exact Counters.le_trans h.zero (Counters.le_guard_left _ _)
      · rw [observeMany_window cfg s ho, observeMany_seen cfg s ho]
        exact h.entries cfg f clock now
  · exact h.of_same (observeMany_other cfg s hm now)

/-- A snapshot's counters are what was seen of the match before, guarded by the frame's. -/
theorem snapshot_seen {s : Study} {f : Frame} (now : ℚ) : ∀ snap ∈ (observeMany cfg s f now).2, Capped snap.matchID s →
    (⟨snap.shotsTotal, snap.shotsOnTarget, snap.dangerousAttacks⟩ : Counters) = (s.seen snap.matchID).guard f.counters := by
  intro snap hsnap hcapped
  obtain ⟨m, clock, market, -, rfl⟩ := observeMany_mem cfg hsnap
  replace hcapped : Capped m s := hcapped
  -- the newest entry is at the mark and within the window at its own time
  have hnew : entryOf f clock ((s.seen m).guard f.counters) now ∈
      prune cfg.windowSeconds now (s.window m ++ [entryOf f clock ((s.seen m).guard f.counters) now]) := by
    refine List.mem_filter.mpr ⟨List.mem_append_right _ (List.mem_singleton_self _), ?_⟩
    rw [decide_eq_true_eq]
    exact sub_le_self _ (Nat.cast_nonneg _)
  have h0 : Counters.zero ≤ (s.seen m).guard f.counters := Counters.le_trans hcapped.zero (Counters.le_guard_left _ _)
  obtain ⟨h1, h2, h3⟩ := aggregate_top hnew h0 (hcapped.entries cfg f clock now)
  simp only [snapshot, h1, h2, h3]
  rfl

end

/-! ## Runs -/

theorem highWater_concat (rs : List Received) (r : Received) : highWater (rs ++ [r]) = (highWater rs).guard r.frame.counters := by
  simp [highWater]

theorem runningMax_concat (l : List Int) (x : Int) : runningMax (l ++ [x]) = max (runningMax l) x := by
  simp [runningMax]

/-- The high-water mark, counter by counter. -/
theorem highWater_max (rs : List Received) :
    highWater rs = ⟨runningMax (rs.map (·.frame.counters.shots)), runningMax (rs.map (·.frame.counters.shotsOnTarget)),
      runningMax (rs.map (·.frame.counters.dangerousAttacks))⟩ := by
  induction rs using List.reverseRecOn with
  | nil => rfl
  | append_singleton rs r ih =>
    rw [highWater_concat, ih]
    simp only [List.map_append, List.map_cons, List.map_nil, runningMax_concat, Counters.guard, Counters.guardOne_eq_max]

theorem entriesFrom_concat (rs : List Received) (r : Received) (seen : Counters) : entriesFrom seen (rs ++ [r]) =
    entriesFrom seen rs ++ [entryOf r.frame (r.frame.clock.getD "")
      (((rs.map (·.frame.counters)).foldl Counters.guard seen).guard r.frame.counters) r.asof] := by
  induction rs generalizing seen with
  | nil => rfl
  | cons x rs ih =>
    rw [List.cons_append, entriesFrom, entriesFrom, ih, List.cons_append]
    rfl

theorem observed_clock {f : Frame} {m clock : String} (h : f.observed = some (m, clock)) : f.clock.getD "" = clock := by
  unfold Frame.observed at h
  split at h
  · rename_i hclock
    split at h
    · cases h
    · cases h
      rw [hclock]
      rfl
  · cases h
  · cases h
  · cases h

variable (cfg : Settings)

theorem studied_concat (rs : List Received) (r : Received) :
    studied cfg (rs ++ [r]) = (observeMany cfg (studied cfg rs) r.frame r.asof).1 := by
  rw [studied, List.foldl_append]
  rfl

theorem own_concat {m clock : String} {r : Received} (h : r.frame.observed = some (m, clock)) (rs : List Received) :
    own m (rs ++ [r]) = own m rs ++ [r] := by
  simp [own, h]

/-- The next frame is one of the match, or changes nothing of it. -/
theorem next_frame (m : String) (rs : List Received) (r : Received) : (∃ clock, r.frame.observed = some (m, clock)) ∨
    own m (rs ++ [r]) = own m rs ∧ SameFor m (studied cfg (rs ++ [r])) (studied cfg rs) := by
  rw [studied_concat]
  cases ho : r.frame.observed with
  | none =>
    rw [observeMany_none cfg _ ho]
    exact Or.inr ⟨by simp [own, ho], rfl, rfl⟩
  | some x =>
    obtain ⟨m', clock⟩ := x
    by_cases hm : m' = m
    · subst hm
      exact Or.inl ⟨clock, rfl⟩
    · refine Or.inr ⟨by simp [own, ho, hm], observeMany_other cfg _ ?_ _⟩
      rw [Frame.observed_matchID ho]
      simpa using hm

/-- What the study has seen of a match is its high-water mark. -/
theorem studied_seen (m : String) (rs : List Received) : (studied cfg rs).seen m = highWater (own m rs) := by
  induction rs using List.reverseRecOn with
  | nil => rfl
  | append_singleton rs r ih =>
    rcases next_frame cfg m rs r with ⟨clock, ho⟩ | ⟨hown, hsame⟩
    · rw [own_concat ho, highWater_concat, ← ih, studied_concat, observeMany_seen cfg _ ho]
    · rw [hown, hsame.seen, ih]

theorem studied_capped (m : String) (rs : List Received) : Capped m (studied cfg rs) :=
  fold_inv (Capped m) (fun _ r h => observeMany_capped cfg h r.frame r.asof) rs (fresh_capped m)

/-- A snapshot's counters are the high-water mark with the frame itself. -/
theorem snapshot_counters (rs : List Received) (r : Received) : ∀ snap ∈ (observeMany cfg (studied cfg rs) r.frame r.asof).2,
    (⟨snap.shotsTotal, snap.shotsOnTarget, snap.dangerousAttacks⟩ : Counters) = highWater (own snap.matchID (rs ++ [r])) := by
  intro snap hsnap
  have hm := observeMany_matchID cfg (studied cfg rs) r.frame r.asof snap hsnap
  rw [snapshot_seen cfg r.asof snap hsnap (studied_capped cfg _ rs)]
  cases ho : r.frame.observed with
  | none =>
    rw [observeMany_none cfg _ ho] at hsnap
    cases hsnap
  | some x =>
    obtain ⟨m, clock⟩ := x
    have hid := Frame.observed_id hm ho
    subst hid
    rw [own_concat ho, highWater_concat, studied_seen]

theorem studied_unseen {m : String} {rs : List Received} (h : own m rs = []) : (studied cfg rs).window m = [] := by
  induction rs using List.reverseRecOn with
  | nil => rfl
  | append_singleton rs r ih =>
    rcases next_frame cfg m rs r with ⟨clock, ho⟩ | ⟨hown, hsame⟩
    · rw [own_concat ho] at h
      simp at h
    · rw [hown] at h
      rw [hsame.window, ih h]

theorem prune_prune (w : Nat) {last now : ℚ} (h : last ≤ now) (l : List StudyEntry) (e : StudyEntry) :
    prune w now (prune w last l ++ [e]) = prune w now (l ++ [e]) := by
  unfold prune
  rw [List.filter_append, List.filter_append, List.filter_filter]
  congr 1
  apply List.filter_congr
  intro x _
  by_cases hx : now - w ≤ x.ts
  · have hlast : last - w ≤ x.ts := (sub_le_sub_right h _).trans hx
    simp [hx, hlast]
  · simp [hx]

/-- While time does not run backwards for a match, its window is what was observed since the
    cutoff. -/
theorem studied_window (m : String) (rs : List Received) (hsorted : ((own m rs).map (·.asof)).Pairwise (· ≤ ·)) :
    ∀ now ∈ ((own m rs).map (·.asof)).getLast?, (studied cfg rs).window m = prune cfg.windowSeconds now (observedEntries m rs) := by
  induction rs using List.reverseRecOn with
  | nil =>
    intro now hnow
    simp [own] at hnow
  | append_singleton rs r ih =>
    rcases next_frame cfg m rs r with ⟨clock, ho⟩ | ⟨hown, hsame⟩
    · intro now hnow
      rw [own_concat ho, List.map_append] at hsorted
      obtain ⟨hold, -, hle⟩ := List.pairwise_append.mp hsorted
      have hnow' : now = r.asof := by
        rw [own_concat ho] at hnow
        simpa using hnow.symm
      subst hnow'
      have hentries : observedEntries m (rs ++ [r]) =
          observedEntries m rs ++ [entryOf r.frame clock ((highWater (own m rs)).guard r.frame.counters) r.asof] := by
        rw [observedEntries, own_concat ho, entriesFrom_concat, observed_clock ho]
        rfl
      rw [studied_concat, observeMany_window cfg _ ho, studied_seen, hentries]
      cases hlast : ((own m rs).map (·.asof)).getLast? with
      | none =>
        have hnil : own m rs = [] := by simpa using hlast
        rw [studied_unseen cfg hnil, observedEntries, hnil]
        rfl
      | some last =>
        rw [ih hold last hlast]
        exact prune_prune _ (hle last (List.mem_of_getLast? hlast) r.asof (by simp)) _ _
    · rw [hown] at hsorted ⊢
      intro now hnow
      rw [hsame.window, ih hsorted now hnow, observedEntries, observedEntries, hown]

/-- No snapshot looks further back than the study window. -/
theorem snapshot_span (s : Study) (r : Received) : ∀ snap ∈ (observeMany cfg s r.frame r.asof).2,
    snap.windowEnd - snap.windowStart ≤ cfg.windowSeconds := by
  intro snap hsnap
  obtain ⟨m, clock, market, -, rfl⟩ := observeMany_mem cfg hsnap
  simp only [snapshot]
  cases hhead : (prune cfg.windowSeconds r.asof
      (s.window m ++ [entryOf r.frame clock ((s.seen m).guard r.frame.counters) r.asof])).head? with
  | none => simp
  | some e =>
    have hin := (List.mem_filter.mp (List.mem_of_head? hhead)).2
    rw [decide_eq_true_eq] at hin
    exact sub_le_comm.mp hin

/-- A snapshot for each market of an observed frame. -/
theorem snapshot_markets (s : Study) {f : Frame} {m clock : String} (h : f.observed = some (m, clock)) (now : ℚ) :
    (observeMany cfg s f now).2.map (fun snap => (snap.matchID, snap.marketID)) = f.markets.keys.map fun market => (m, market) := by
  rw [observeMany_some cfg s h, List.map_map, Table.keys, List.map_map]
  rfl

/-- What a run of `observe_many` keeps of its matches. -/
structure NeverRewinds (cfg : Settings) (rs : List Received) : Prop where
  markets : ∀ (r : Received) (m clock : String), r.frame.observed = some (m, clock) →
    (observeMany cfg (studied cfg rs) r.frame r.asof).2.map (fun snap => (snap.matchID, snap.marketID)) =
      r.frame.markets.keys.map fun market => (m, market)
  counters : ∀ r : Received, ∀ snap ∈ (observeMany cfg (studied cfg rs) r.frame r.asof).2,
    snap.shotsTotal = runningMax ((own snap.matchID (rs ++ [r])).map (·.frame.counters.shots)) ∧
      snap.shotsOnTarget = runningMax ((own snap.matchID (rs ++ [r])).map (·.frame.counters.shotsOnTarget)) ∧
      snap.dangerousAttacks = runningMax ((own snap.matchID (rs ++ [r])).map (·.frame.counters.dangerousAttacks))
  window : ∀ m, ((own m rs).map (·.asof)).Pairwise (· ≤ ·) → ∀ now : ℚ, now ∈ ((own m rs).map (·.asof)).getLast? →
    (studied cfg rs).window m = (observedEntries m rs).filter fun e => now - cfg.windowSeconds ≤ e.ts
  span : ∀ r : Received, ∀ snap ∈ (observeMany cfg (studied cfg rs) r.frame r.asof).2,
    snap.windowEnd - snap.windowStart ≤ cfg.windowSeconds

/-- After any frames, in any order of matches and times. -/
theorem counters_never_rewind (rs : List Received) : NeverRewinds cfg rs := by
  refine ⟨fun r m clock ho => snapshot_markets cfg _ ho r.asof, fun r snap hsnap => ?_,
    fun m hsorted => studied_window cfg m rs hsorted, fun r snap hsnap => snapshot_span cfg _ r snap hsnap⟩
  have h := snapshot_counters cfg rs r snap hsnap
  rw [highWater_max, Counters.mk.injEq] at h
  exact h

/-! ## A counter that falls -/

/-- A frame of m1 at 10' and one at 11', with these shots. -/
def tenMinutes (shots : Int) : Received := ⟨frameAt "10'" shots, 600⟩

def elevenMinutes (shots : Int) : Received := ⟨frameAt "11'" shots, 660⟩

/-- Four shots and then one: the match's one market is told of four. -/
theorem four_shots_stay :
    let snaps := (observeMany Settings.default (studied Settings.default [tenMinutes 4]) (elevenMinutes 1).frame 660).2
    snaps.map (fun snap => (snap.matchID, snap.marketID)) = [("m1", "2H_1X2")] ∧ ∀ snap ∈ snaps, snap.shotsTotal = 4 := by
  have hobserved : (elevenMinutes 1).frame.observed = some ("m1", "11'") := by decide +kernel
  have hmax : runningMax ((own "m1" [tenMinutes 4, elevenMinutes 1]).map (·.frame.counters.shots)) = 4 := by decide +kernel
  have h := counters_never_rewind Settings.default [tenMinutes 4]
  refine ⟨h.markets (elevenMinutes 1) "m1" "11'" hobserved, fun snap hsnap => ?_⟩
  have hid := observeMany_matchID Settings.default _ _ _ snap hsnap
  rw [(h.counters (elevenMinutes 1) snap hsnap).1, ← Frame.observed_id hid hobserved]
  exact hmax

end CasuyaLive.Analytics
