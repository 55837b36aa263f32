/-
  CasuyaLive.System.Possession — the possession of the home side from the vendor's statistic
  to the feature (data-ingestion-go, internal/helabet/poller.go: `toMatch`,
  internal/apifootball/poller.go: `decodeEvent`, `cycle`; analytics-engine-py,
  src/feature_study.py: `observe_many`, `_aggregate`, `feature_vector`).

  The study, its default and its baselines read possession as a share of the play.
  `feed_gap`: shares in, and the gap is within one. `possession_iff`: a published frame
  carries the share p/100 of a statistic that reads p exactly when p is 0, or the frame is a
  live one of API-Football whose statistic is a text. The Helabet poller passes the
  percentage on as it is (`a_percentage_reaches_the_study`).
-/

import CasuyaLive.Analytics.Replay
import CasuyaLive.Ingest.Helabet.Track
import CasuyaLive.Ingest.ApiFootball.Fixture

namespace CasuyaLive.System

open CasuyaLive.Lib CasuyaLive.Lib.Text CasuyaLive.Analytics CasuyaLive.Ingest.Stream

/-! ## Shares in the study -/

def IsShare (q : ℚ) : Prop := 0 ≤ q ∧ q ≤ 1

theorem isShare_half : IsShare (1 / 2) := by
  refine ⟨?_, ?_⟩ <;> norm_num

theorem average_share {l : List ℚ} (h : ∀ q ∈ l, IsShare q) : IsShare (l.sum / (max l.length 1 : ℕ)) := by
  have hsum : 0 ≤ l.sum ∧ l.sum ≤ l.length := by
    induction l with
    | nil => simp
    | cons q l ih =>
      obtain ⟨hq0, hq1⟩ := h q List.mem_cons_self
      obtain ⟨h0, h1⟩ := ih fun x hx => h x (List.mem_cons_of_mem _ hx)
      rw [List.sum_cons, List.length_cons]
      push_cast
      exact ⟨by linarith, by linarith⟩
  have hlen : (l.length : ℚ) ≤ (max l.length 1 : ℕ) := by exact_mod_cast le_max_left _ _
  have hpos : (0 : ℚ) < (max l.length 1 : ℕ) := by
    have hone : 0 < max l.length 1 := by omega
    exact_mod_cast hone
  exact ⟨div_nonneg hsum.1 hpos.le, (div_le_one hpos).mpr (hsum.2.trans hlen)⟩

/-- Every entry of every window carries a share. -/
def Shares (s : Study) : Prop := ∀ m, ∀ e ∈ s.window m, IsShare e.possessionHome

/-- The frame's possession is a share, where it has one. -/
def SharedFrame (f : Frame) : Prop := ∀ q ∈ f.possessionHome, IsShare q

/-- The baselines are shares. -/
def SharedBaselines (cfg : Settings) : Prop :=
  ∀ name league, cfg.leagues.get? name = some league → ∀ q ∈ league.get? "possession_home", IsShare q

theorem fresh_shares : Shares Study.fresh := by
  intro m e he
  simp [Study.window, Study.fresh] at he

theorem entry_share {f : Frame} (h : SharedFrame f) (clock : String) (c : Counters) (now : ℚ) :
    IsShare (entryOf f clock c now).possessionHome := by
  show IsShare (f.possessionHome.getD (1 / 2))
  cases hq : f.possessionHome with
  | none => exact isShare_half
  | some q => exact h q hq

theorem aggregate_shares {entries : List StudyEntry} (h : ∀ e ∈ entries, IsShare e.possessionHome) :
    ∀ b ∈ aggregate entries, IsShare b.possessionHome :=
  aggregate_inv (fun b => IsShare b.possessionHome) fun e he _ _ => h e he

variable (cfg : Settings)

/-- What the study takes into the match's window. -/
theorem observed_shares {s : Study} (hs : Shares s) {f : Frame} (hf : SharedFrame f) (m clock : String) (c : Counters)
    (now : ℚ) : ∀ e ∈ prune cfg.windowSeconds now (s.window m ++ [entryOf f clock c now]), IsShare e.possessionHome := by
  intro e he
  rcases List.mem_append.mp (List.mem_filter.mp he).1 with he | he
  · exact hs m e he
  · rw [List.mem_singleton.mp he]
    exact entry_share hf clock c now

theorem observeMany_shares {s : Study} (hs : Shares s) {f : Frame} (hf : SharedFrame f) (now : ℚ) :
    Shares (observeMany cfg s f now).1 ∧ ∀ snap ∈ (observeMany cfg s f now).2, IsShare snap.possessionHome := by
  cases ho : f.observed with
  | none =>
    rw [observeMany_none cfg s ho]
    exact ⟨hs, by simp⟩
  | some x =>
    obtain ⟨m, clock⟩ := x
    rw [observeMany_some cfg s ho]
    have hwindow := observed_shares cfg hs hf m clock ((s.seen m).guard f.counters) now
    refine ⟨fun m' e he => ?_, fun snap hsnap => ?_⟩
    · by_cases hm : m' = m
      · rw [hm] at he
        simp only [Study.window, Table.get?_set_same, Option.getD_some] at he
        exact hwindow e he
      · simp only [Study.window, Table.get?_set_ne _ _ hm] at he
        exact hs m' e he
    · obtain ⟨market, -, rfl⟩ := List.mem_map.mp hsnap
      have haverage := average_share (List.forall_mem_map.mpr (aggregate_shares hwindow))
      rw [List.length_map] at haverage
      exact haverage

theorem collectSettled_shares {s : Study} (hs : Shares s) (f : Frame) : Shares (collectSettled s f).1 :=
  fun m e he => hs m e (collectSettled_window s f m he)

theorem feed_shares {s : Study} (hs : Shares s) {r : Received} (hf : SharedFrame r.frame) : Shares (feed cfg s r).1 :=
  (observeMany_shares cfg (collectSettled_shares hs r.frame) hf r.asof).1

theorem run_shares (rs : List Received) (h : ∀ r ∈ rs, SharedFrame r.frame) : Shares (after (feed cfg) Study.fresh rs) :=
  run_inv Shares (fun _ _ hs hr => feed_shares cfg hs hr) fresh_shares (meets_forall.mpr h)

theorem baseline_share (h : SharedBaselines cfg) (snap : MomentumFrame) : IsShare (baselineFor cfg snap).possessionHome := by
  have hleague : ∀ name, IsShare ((((cfg.leagues.get? name).getD Table.empty).get? "possession_home").getD (1 / 2)) := by
    intro name
    cases hl : cfg.leagues.get? name with
    | none => exact isShare_half
    | some league =>
      rw [Option.getD_some]
      cases hq : league.get? "possession_home" with
      | none => exact isShare_half
      | some q => exact h name league hl q hq
  unfold baselineFor
  simp only
  split
  · exact hleague "default"
  · exact hleague snap.league

/-- With shares in every frame and every baseline the gap is within one. -/
theorem feed_gap (hcfg : SharedBaselines cfg) {s : Study} (hs : Shares s) {r : Received} (hf : SharedFrame r.frame) :
    ∀ snap ∈ (feed cfg s r).2, ∀ x ∈ snap.features, -1 ≤ x.possessionGap ∧ x.possessionGap ≤ 1 := by
  intro snap hsnap x hx
  obtain ⟨bare, hbare, rfl⟩ := List.mem_map.mp hsnap
  obtain ⟨h0, h1⟩ := (observeMany_shares cfg (collectSettled_shares hs r.frame) hf r.asof).2 bare hbare
  obtain ⟨b0, b1⟩ := baseline_share cfg hcfg bare
  cases hx
  simp only [featureVector]
  exact ⟨by linarith, by linarith⟩

/-! ## Fixtures and their frames -/

open CasuyaLive.Ingest

/-- A fixture as its vendor shows it: an entry of the board, a row of a feed. -/
inductive Fixture where
  | helabet (raw : Helabet.RawMatch)
  | apiFootball (row : ApiFootball.Any)

def isPossession (stat : ApiFootball.Any) : Bool :=
  match stat with
  | .obj _ => contains (ApiFootball.toLower (ApiFootball.s (stat.get? "type"))) "possession"
  | _ => false

/-- The last statistic about possession. -/
def possessionStat (row : ApiFootball.Any) : Option ApiFootball.Any :=
  ((ApiFootball.statistics row).filter isPossession).getLast?

/-- The value names the percentage `p`: the number, or a text such as "58%" or "58". -/
def Names (v : Option ApiFootball.Any) (p : ℚ) : Prop :=
  v = some (.num p) ∨ ∃ t, v = some (.str t) ∧ ApiFootball.percentage (trimSpace t) = some p

/-- The home side's possession statistic is `p` percent. A text of the board that does not
    read as a number, such as one with a percent sign, may be any. -/
def Reports : Fixture → ℚ → Prop
  | .helabet raw, p => ∃ item, (Helabet.statsOf raw).find? (·.id == 29) = some item ∧ ∀ q ∈ item.s1, q = p
  | .apiFootball row, p => ∃ stat, possessionStat row = some stat ∧ Names (stat.get? "home") p

inductive Kind where
  | live
  | settlement
  deriving DecidableEq

/-- A frame the pollers make of the fixture. -/
def Publishes : Fixture → Kind → Match → Prop
  | .helabet raw, .live, m => ∃ now, Helabet.toMatch now raw = some m
  | .helabet raw, .settlement, m => ∃ now f later, Helabet.toMatch now raw = some f ∧ m = f.settlement later
  | .apiFootball row, .live, m => ∃ c id ev,
      ApiFootball.decodeEvent row = some (id, ev) ∧ c.live.get? id = some ev ∧ ApiFootball.liveOf c id = some m
  | .apiFootball row, .settlement, m => ∃ c id ev st,
      ApiFootball.decodeEvent row = some (id, ev) ∧ c.day.get? id = some ev ∧ ApiFootball.endOf c id (some st) = some m

theorem helabet_statistics {now : Int} {raw : Helabet.RawMatch} {m : Match} (h : Helabet.toMatch now raw = some m) :
    m.shots = Helabet.shotsOf raw ∧ m.shotsOnTarget = Helabet.shotsOnTargetOf raw ∧
      m.dangerousAttacks = Helabet.dangerousAttacksOf raw ∧ m.possessionHome = Helabet.possessionHomeOf raw := by
  unfold Helabet.toMatch at h
  split at h
  · cases h
  · split at h
    · cases h
    · cases h
      exact ⟨rfl, rfl, rfl, rfl⟩

theorem onStatistic_possession (e : ApiFootball.LiveEvent) (stat : ApiFootball.Any) :
    (ApiFootball.onStatistic e stat).possessionHome =
      if isPossession stat then ApiFootball.percent (stat.get? "home") else e.possessionHome := by
  cases stat with
  | obj fields =>
    have htype : isPossession (.obj fields) =
      contains (ApiFootball.toLower (ApiFootball.s (Json.get? "type" (.obj fields)))) "possession" := rfl
    simp only [ApiFootball.onStatistic, apply_ite ApiFootball.LiveEvent.possessionHome, ite_self]
    by_cases h : isPossession (.obj fields) = true
    · rw [if_pos h, if_pos (htype.symm.trans h)]
    · rw [if_neg h, if_neg (by rw [← htype]; exact h)]
  | _ => simp only [ApiFootball.onStatistic, isPossession, Bool.false_eq_true, if_false]

theorem onStatistics_possession (stats : List ApiFootball.Any) (e : ApiFootball.LiveEvent) :
    (stats.foldl ApiFootball.onStatistic e).possessionHome =
      match (stats.filter isPossession).getLast? with
      | some stat => ApiFootball.percent (stat.get? "home")
      | none => e.possessionHome := by
  induction stats using List.reverseRecOn with
  | nil => rfl
  | append_singleton stats stat ih =>
    rw [List.foldl_concat, onStatistic_possession, List.filter_append]
    by_cases h : isPossession stat = true
    · simp [h]
    · simp [h, ih]

theorem decodeEvent_possession {row : ApiFootball.Any} {id : String} {ev : ApiFootball.LiveEvent}
    (h : ApiFootball.decodeEvent row = some (id, ev)) {stat : ApiFootball.Any} (hstat : possessionStat row = some stat) :
    ev.possessionHome = ApiFootball.percent (stat.get? "home") := by
  unfold ApiFootball.decodeEvent at h
  simp only at h
  split at h
  · cases h
  · simp only [Option.some.injEq, Prod.mk.injEq] at h
    obtain ⟨-, rfl⟩ := h
    rw [onStatistics_possession]
    rw [possessionStat] at hstat
    rw [hstat]

theorem liveOf_possession {c : ApiFootball.Cycle} {id : String} {ev : ApiFootball.LiveEvent} {m : Match}
    (hev : c.live.get? id = some ev) (h : ApiFootball.liveOf c id = some m) : m.possessionHome = ev.possessionHome := by
  unfold ApiFootball.liveOf at h
  rw [hev] at h
  simp only at h
  split at h
  · obtain ⟨mkt, -, rfl⟩ := Option.map_eq_some_iff.mp h
    rfl
  · cases h

theorem endOf_possession {c : ApiFootball.Cycle} {id : String} {st : Option ApiFootball.MatchState} {m : Match}
    (h : ApiFootball.endOf c id st = some m) : m.possessionHome = 0 := by
  unfold ApiFootball.endOf at h
  obtain ⟨hbind, -⟩ := Option.filter_eq_some_iff.mp h
  obtain ⟨st, -, hs⟩ := Option.bind_eq_some_iff.mp hbind
  unfold ApiFootball.settles at hs
  simp only at hs
  split at hs
  · cases hs
  · split at hs
    · cases hs
    · obtain ⟨final, -, rfl⟩ := Option.map_eq_some_iff.mp hs
      rfl

theorem percent_text {v : Option ApiFootball.Any} {p : ℚ} {t : String} (hv : v = some (.str t)) (h : Names v p) :
    ApiFootball.percent v = p / 100 := by
  rcases h with h | ⟨t', h, hp⟩
  · rw [hv] at h
    cases h
  · rw [ApiFootball.percent, h, ApiFootball.s, hp]
    rfl

theorem percent_number (p : ℚ) : ApiFootball.percent (some (.num p)) = 0 := by
  have hnone : ApiFootball.percentage "" = none := by decide +kernel
  rw [ApiFootball.percent, ApiFootball.s, hnone]
  · rfl
  · simp

/-! ## Every frame of a run is one of these -/

/-- What is tracked comes from an entry of the boards, and so does what was sent. -/
structure FromBoards (raws : List Helabet.RawMatch) (p : Helabet.Poller) : Prop where
  tracked : ∀ id tm, p.active.get? id = some tm → tm.raw ∈ raws ∧ ∃ now, Helabet.toMatch now tm.raw = some tm.lastFrame
  sent : ∀ m ∈ frames p.log, ∃ raw ∈ raws, ∃ k, Publishes (.helabet raw) k m

section

variable {raws : List Helabet.RawMatch} {p : Helabet.Poller} (sink : Sink Helabet.RawMatch)

theorem frames_append {ρ : Type} (a b : List (Obs ρ)) : frames (a ++ b) = frames a ++ frames b := List.filterMap_append

theorem safePublish_from (h : FromBoards raws p) {m : Match} (hm : ∃ raw ∈ raws, ∃ k, Publishes (.helabet raw) k m) :
    FromBoards raws (Helabet.safePublish sink p m) := by
  refine ⟨h.tracked, fun m' hm' => ?_⟩
  rw [Helabet.safePublish, frames_append] at hm'
  rcases List.mem_append.mp hm' with hm' | hm'
  · exact h.sent m' hm'
  · rw [List.mem_singleton.mp hm']
    exact hm

theorem markSettled_from (h : FromBoards raws p) (id : String) (fin : Bool) :
    FromBoards raws (Helabet.markSettled p id fin) := by
  refine ⟨fun i tm hi => ?_, fun m hm => ?_⟩
  · simp only [Helabet.markSettled, Table.get?_erase] at hi
    split at hi
    · cases hi
    · exact h.tracked i tm hi
  · rw [Helabet.markSettled, frames_append] at hm
    exact h.sent m (by simpa [frames] using hm)

theorem onEntry_from (h : FromBoards raws p) (now : Int) {raw : Helabet.RawMatch} (hr : raw ∈ raws) :
    FromBoards raws (Helabet.onEntry sink now p raw) := by
  have hlisted : FromBoards raws { p with log := p.log ++ [.listed raw] } := by
    refine ⟨h.tracked, fun m hm => h.sent m ?_⟩
    rw [frames_append] at hm
    simpa [frames] using hm
  unfold Helabet.onEntry
  split
  · exact h
  · simp only
    split
    · exact hlisted
    · cases hm : Helabet.toMatch now raw with
      | none => exact hlisted
      | some frame =>
        have htracked : FromBoards raws
            { p with log := p.log ++ [.listed raw], active := p.active.set (Helabet.matchIDKey raw.id) ⟨raw, frame⟩ } := by
          refine ⟨fun id tm hi => ?_, hlisted.sent⟩
          rw [Table.get?_set] at hi
          split at hi
          · cases hi
            exact ⟨hr, now, hm⟩
          · exact h.tracked id tm hi
        simp only
        split
        · exact markSettled_from (safePublish_from sink htracked ⟨raw, hr, .settlement, now, frame, now, hm, rfl⟩) _ _
        · exact safePublish_from sink htracked ⟨raw, hr, .live, now, hm⟩

theorem onDrop_from (h : FromBoards raws p) (now : Int) {x : String × Helabet.TrackedMatch}
    (hx : x.2.raw ∈ raws ∧ ∃ now, Helabet.toMatch now x.2.raw = some x.2.lastFrame) :
    FromBoards raws (Helabet.onDrop sink now p x) := by
  obtain ⟨hr, then', hm⟩ := hx
  unfold Helabet.onDrop
  split
  · exact markSettled_from (safePublish_from sink h ⟨x.2.raw, hr, .settlement, then', x.2.lastFrame, now, hm, rfl⟩) _ _
  · exact markSettled_from h _ _

theorem dropAbsent_from (h : FromBoards raws p) (now : Int) (seen : List String) :
    FromBoards raws (Helabet.dropAbsent sink now seen p) := by
  have hkept : FromBoards raws { p with active := p.active.filter seen.contains } := by
    refine ⟨fun id tm hi => ?_, h.sent⟩
    rw [Table.get?_filter] at hi
    split at hi
    · exact h.tracked id tm hi
    · cases hi
  refine run_inv (C := fun _ x => x.2.raw ∈ raws ∧ ∃ now, Helabet.toMatch now x.2.raw = some x.2.lastFrame)
    (FromBoards raws) (fun q x hq hx => onDrop_from sink hq now hx) hkept (meets_forall.mpr fun x hx => ?_)
  exact h.tracked x.1 x.2 ((Table.mem_iff _ _ _).mp (List.mem_filter.mp hx).1)

theorem tick_from (h : FromBoards raws p) {t : Helabet.Tick} (ht : ∀ board ∈ t.board, board ⊆ raws) :
    FromBoards raws (Helabet.tick sink p t) := by
  unfold Helabet.tick
  split
  · exact h
  · rename_i board hb
    refine dropAbsent_from sink ?_ _ _
    exact run_inv (C := fun _ raw => raw ∈ raws) (FromBoards raws) (fun q raw hq hr => onEntry_from sink hq t.now hr) h
      (meets_forall.mpr (ht board hb))

/-- The board poller sends nothing but frames of the entries it was shown. -/
theorem helabet_publishes (ts : List Helabet.Tick) : ∀ m ∈ frames (Helabet.run sink ts).log,
    ∃ raw ∈ ts.flatMap (fun t => t.board.getD []), ∃ k, Publishes (.helabet raw) k m := by
  have hnew : FromBoards (ts.flatMap fun t => t.board.getD []) Helabet.new :=
    ⟨by simp [Helabet.new], by simp [Helabet.new, frames]⟩
  refine (run_inv (C := fun _ t => ∀ board ∈ t.board, board ⊆ ts.flatMap fun t => t.board.getD [])
    (FromBoards _) (fun q t hq ht => tick_from sink hq ht) hnew (meets_forall.mpr ?_)).sent
  intro t ht board hb raw hr
  exact List.mem_flatMap.mpr ⟨t, ht, by rw [hb]; exact hr⟩

end

/-- The API-Football poller sends of a fixture nothing but frames of rows it was given. -/
theorem apiFootball_publishes (sink : Sink ApiFootball.LiveEvent) (id : String) (xs : List ApiFootball.Feeds) :
    ∀ m ∈ Ingest.framesOf (ApiFootball.matchIDKey id) (ApiFootball.run sink (xs.map ApiFootball.Feeds.cycle)).log,
      ∃ row ∈ xs.flatMap (fun x => x.live ++ x.day), ∃ k, Publishes (.apiFootball row) k m := by
  induction xs using List.reverseRecOn with
  | nil => simp [ApiFootball.run, ApiFootball.new, Ingest.framesOf, frames]
  | append_singleton xs x ih =>
    intro m hm
    rw [List.map_append, ApiFootball.run, List.foldl_append, List.map_cons, List.map_nil, List.foldl_cons, List.foldl_nil,
      ApiFootball.cycle_frames] at hm
    rw [List.flatMap_append]
    rcases List.mem_append.mp hm with hm | hm
    · obtain ⟨row, hrow, hk⟩ := ih m hm
      exact ⟨row, List.mem_append_left _ hrow, hk⟩
    · rcases List.mem_append.mp hm with hm | hm
      · rw [Option.mem_toList] at hm
        obtain ⟨ev, ⟨hev, -⟩, -⟩ := ApiFootball.liveOf_spec hm
        obtain ⟨row, hrow, hd⟩ := ApiFootball.parseEvents_row hev
        exact ⟨row, List.mem_append_right _ (by simp [hrow]), .live, x.cycle, id, ev, hd, hev, hm⟩
      · rw [Option.mem_toList] at hm
        obtain ⟨-, st, ev, hst, ⟨-, hev, -⟩, -⟩ := ApiFootball.endOf_spec hm
        obtain ⟨row, hrow, hd⟩ := ApiFootball.parseEvents_row hev
        rw [hst] at hm
        exact ⟨row, List.mem_append_right _ (by simp [hrow]), .settlement, x.cycle, id, ev, st, hd, hev, hm⟩

/-! ## End to end -/

/-- The published frame as the study reads it. -/
def asRead (m : Match) : Frame :=
  { matchID := some m.matchID
    clock := some m.clock
    score := some ⟨some m.score.home, some m.score.away⟩
    scoreHome := none
    scoreAway := none
    league := some m.league
    homeTeam := some m.homeTeam
    awayTeam := some m.awayTeam
    shots := some m.shots
    shotsOnTarget := some m.shotsOnTarget
    dangerousAttacks := some m.dangerousAttacks
    possessionHome := some m.possessionHome
    markets := m.markets.mapVal fun market =>
      ((Table.empty.set "home" (some market.odds.home)).set "draw" (some market.odds.draw)).set "away" (some market.odds.away) }

/-- The frame carries the percentage `p` as a share, and its gap is within one after any
    frames with shares. -/
structure OneUnit (m : Match) (p : ℚ) : Prop where
  scaled : m.possessionHome = p / 100
  share : IsShare m.possessionHome
  gap : ∀ cfg, SharedBaselines cfg → ∀ earlier : List Received, (∀ r ∈ earlier, SharedFrame r.frame) → ∀ now,
    ∀ snap ∈ (feed cfg (after (feed cfg) Study.fresh earlier) ⟨asRead m, now⟩).2,
      ∀ x ∈ snap.features, -1 ≤ x.possessionGap ∧ x.possessionGap ≤ 1

theorem one_unit_of_scaled {m : Match} {p : ℚ} (hp : 0 ≤ p ∧ p ≤ 100) (h : m.possessionHome = p / 100) : OneUnit m p := by
  have hshare : IsShare m.possessionHome := by
    rw [h]
    exact ⟨by linarith [hp.1], by linarith [hp.2]⟩
  refine ⟨h, hshare, fun cfg hcfg earlier hearlier now => ?_⟩
  refine feed_gap cfg hcfg (run_shares cfg earlier hearlier) ?_
  intro q hq
  cases hq
  exact hshare

/-- A live frame of API-Football whose statistic is a text. -/
def Scales (x : Fixture) (k : Kind) : Prop :=
  k = .live ∧ ∃ row stat t, x = .apiFootball row ∧ possessionStat row = some stat ∧ stat.get? "home" = some (.str t)

theorem not_scales_helabet (raw : Helabet.RawMatch) (k : Kind) : ¬ Scales (.helabet raw) k := by
  intro h
  obtain ⟨-, row, stat, t, hx, -⟩ := h
  cases hx

/-- A settlement frame of helabet carries the statistics of the live frame it closes. -/
theorem publishes_helabet {raw : Helabet.RawMatch} {k : Kind} {m : Match} (hm : Publishes (.helabet raw) k m) :
    m.shots = Helabet.shotsOf raw ∧ m.shotsOnTarget = Helabet.shotsOnTargetOf raw ∧
      m.dangerousAttacks = Helabet.dangerousAttacksOf raw ∧ m.possessionHome = Helabet.possessionHomeOf raw := by
  cases k with
  | live =>
    obtain ⟨now, h⟩ := hm
    exact helabet_statistics h
  | settlement =>
    obtain ⟨now, f, later, h, rfl⟩ := hm
    obtain ⟨h1, h2, h3, h4⟩ := helabet_statistics h
    exact ⟨h1, h2, h3, h4⟩

/-- What a frame carries of the statistic. -/
theorem published_possession {x : Fixture} {k : Kind} {m : Match} {p : ℚ} (hr : Reports x p) (hm : Publishes x k m) :
    (Scales x k ∧ m.possessionHome = p / 100) ∨ (¬ Scales x k ∧ (m.possessionHome = 0 ∨ m.possessionHome = p)) := by
  cases x with
  | helabet raw =>
    obtain ⟨item, hitem, hp⟩ := hr
    refine Or.inr ⟨not_scales_helabet raw k, ?_⟩
    rw [(publishes_helabet hm).2.2.2, Helabet.possessionHomeOf, Helabet.statByID, hitem]
    cases hq : item.s1 with
    | none => exact Or.inl (by simp [hq])
    | some q => exact Or.inr (by simp [hq, hp q hq])
  | apiFootball row =>
    cases k with
    | settlement =>
      obtain ⟨c, id, ev, st, -, -, hend⟩ := hm
      exact Or.inr ⟨fun hs => absurd hs.1 (by decide), Or.inl (endOf_possession hend)⟩
    | live =>
      obtain ⟨c, id, ev, hd, hev, hlive⟩ := hm
      obtain ⟨stat, hstat, hnames⟩ := hr
      have hposs : m.possessionHome = ApiFootball.percent (stat.get? "home") :=
        (liveOf_possession hev hlive).trans (decodeEvent_possession hd hstat)
      rcases hnames with hnum | ⟨t, htext, hp⟩
      · refine Or.inr ⟨?_, Or.inl ?_⟩
        · intro h
          obtain ⟨-, row', stat', t, hx, hstat', htext⟩ := h
          cases hx
          rw [hstat] at hstat'
          cases hstat'
          rw [hnum] at htext
          cases htext
        · rw [hposs, hnum, percent_number]
      · refine Or.inl ⟨⟨rfl, row, stat, t, rfl, hstat, htext⟩, ?_⟩
        rw [hposs, percent_text htext (Or.inr ⟨t, htext, hp⟩)]

/-- Possession keeps one unit exactly where it is nothing, or a text on a live frame of
    API-Football. -/
theorem possession_iff {x : Fixture} {k : Kind} {m : Match} {p : ℚ} (hp : 0 ≤ p ∧ p ≤ 100) (hr : Reports x p)
    (hm : Publishes x k m) : OneUnit m p ↔ p = 0 ∨ Scales x k := by
  rcases published_possession hr hm with ⟨hs, hscaled⟩ | ⟨hs, hbare⟩
  · exact ⟨fun _ => Or.inr hs, fun _ => one_unit_of_scaled hp hscaled⟩
  · constructor
    · intro h
      have hscaled := h.scaled
      left
      rcases hbare with h0 | h1
      · rw [h0] at hscaled
        linarith
      · rw [h1] at hscaled
        linarith
    · intro hx
      rcases hx with rfl | h
      · refine one_unit_of_scaled hp ?_
        rcases hbare with h0 | h0 <;> rw [h0] <;> norm_num
      · exact absurd h hs

def ballPossession : ApiFootball.Any :=
  .obj [("type", .str "Ball Possession"), ("home", .str "58%"), ("away", .str "42%")]

/-- A row of fixture 42 in its first half. -/
def possessionRow : ApiFootball.Any :=
  .obj [("match_id", .str "42"), ("match_hometeam_name", .str "Home"), ("match_awayteam_name", .str "Away"),
    ("match_status", .str "1H"), ("match_time", .str "31"),
    ("statistics", .arr [ballPossession])]

def possessionFeeds : ApiFootball.Feeds := ⟨1714571280 * second, Table.empty.set "42" ⟨2, 3, 4⟩, [possessionRow], []⟩

/-- The event of the row, as the cycle finds it. -/
theorem possessionRow_shows : ∃ ev, ApiFootball.decodeEvent possessionRow = some ("42", ev) ∧
    ApiFootball.Shows possessionFeeds.cycle "42" ev := by
  obtain ⟨ev, hev⟩ : ∃ ev, possessionFeeds.cycle.live.get? "42" = some ev := Option.isSome_iff_exists.mp (by decide +kernel)
  have hrest : ∀ ev ∈ possessionFeeds.cycle.live.get? "42", ApiFootball.decodeEvent possessionRow = some ("42", ev) ∧
      ApiFootball.inPlay ev = true ∧ ApiFootball.minuteOf ev ≠ "" := by decide +kernel
  obtain ⟨hd, hplay, hminute⟩ := hrest ev hev
  exact ⟨ev, hd, hev, hplay, hminute, by decide +kernel⟩

theorem a_text_is_scaled : ∃ m, Publishes (.apiFootball possessionRow) .live m ∧ OneUnit m 58 := by
  obtain ⟨ev, hd, hshows⟩ := possessionRow_shows
  obtain ⟨m, hm, -⟩ := ApiFootball.liveOf_of_shows hshows
  have hpub : Publishes (.apiFootball possessionRow) .live m := ⟨_, _, ev, hd, hshows.1, hm⟩
  have hstat : possessionStat possessionRow = some ballPossession := by
    have hrows : ApiFootball.statistics possessionRow = [ballPossession] := rfl
    have htype : isPossession ballPossession = true := by decide +kernel
    rw [possessionStat, hrows, List.filter_cons_of_pos htype]
    rfl
  have hname : ApiFootball.percentage (trimSpace "58%") = some 58 := by decide +kernel
  have hreports : Reports (.apiFootball possessionRow) 58 := ⟨_, hstat, Or.inr ⟨"58%", rfl, hname⟩⟩
  refine ⟨m, hpub, (possession_iff (by norm_num) hreports hpub).mpr (Or.inr ?_)⟩
  exact ⟨rfl, _, _, "58%", rfl, hstat, rfl⟩

/-- A football entry with 33 percent of the ball for the home side. -/
def possessionEntry : Helabet.RawMatch :=
  { id := 7
    sport := ⟨1, "Football"⟩
    liga := "League"
    opponent1 := "Home"
    opponent2 := "Away"
    scores := some ⟨0, 0, "31 minutes", 1, none, some [⟨29, some 33⟩]⟩
    eventGroups := [⟨1, [[⟨1, 2⟩, ⟨2, 3⟩, ⟨3, 4⟩]]⟩]
    startTs := 1714571280 }

theorem a_percentage_reaches_the_study : ¬ ∀ x k m p, 0 ≤ p ∧ p ≤ 100 → Reports x p → Publishes x k m → OneUnit m p := by
  intro h
  obtain ⟨m, hm⟩ : ∃ m, Helabet.toMatch 0 possessionEntry = some m := Option.isSome_iff_exists.mp (by decide +kernel)
  have hpub : Publishes (.helabet possessionEntry) .live m := ⟨0, hm⟩
  have hreports : Reports (.helabet possessionEntry) 33 := ⟨⟨29, some 33⟩, rfl, by simp⟩
  have hposs := (h _ _ _ _ (by norm_num) hreports hpub).scaled
  rw [(helabet_statistics hm).2.2.2] at hposs
  revert hposs
  decide +kernel

end CasuyaLive.System
