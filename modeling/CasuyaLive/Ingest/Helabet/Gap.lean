/-
  CasuyaLive.Ingest.Helabet.Gap — a match one board leaves out.

  Two runs differ in one board: one of them lists the match in play there, the other does
  not list it; the next board lists it again. The drop takes the match out of `active` and
  into `settled` whether or not it took it as finished, so a tracked match is silent from
  then on (`a_one_tick_gap_ends_the_match`). `gap_unseen_iff`: the runs publish the same
  frames of the match from the next board on, whatever follows, iff it was settled before,
  or was not tracked and the entry left out could not be projected or the next board has
  one that can.
-/

import CasuyaLive.Ingest.Helabet.FullTime

namespace CasuyaLive.Ingest.Helabet

open CasuyaLive.Lib CasuyaLive.Ingest.Stream

/-- A frame up to the time it was received. -/
def untimed (m : Match) : Match :=
  { m with markets := m.markets.mapVal fun k => { k with updatedAt := 0 }, receivedAt := 0 }

/-- The frames of the match that the ticks after `before` hand over. -/
def publishedAfter (sink : Sink RawMatch) (before later : List Tick) (id : String) : List Match :=
  ((framesOf id (run sink (before ++ later)).log).drop (framesOf id (run sink before).log).length).map untimed

/-- The match is settled, or it is not tracked and the entry left out makes no difference. -/
def GapUnseen (p : Poller) (id : String) (now : Int) (e : RawMatch) (next : Tick) : Prop :=
  phase p id = .settled ∨
    (phase p id = .idle ∧
      (toMatch now e = none ∨
        ∃ raws, next.board = some raws ∧ ∃ raw ∈ raws, shows id raw = true ∧ (toMatch next.now raw).isSome = true))

theorem publishedAfter_hands (sink : Sink RawMatch) (before later : List Tick) (id : String) :
    publishedAfter sink before later id = (hands (phase (run sink before) id) (later.flatMap (sights id))).map untimed := by
  obtain ⟨-, hn⟩ := ticks_refine sink id later (run_wf sink before)
  have hf : framesOf id (run sink (before ++ later)).log =
      framesOf id (run sink before).log ++ hands (phase (run sink before) id) (later.flatMap (sights id)) := by
    rw [run_append, framesOf_notes, hn, List.filterMap_append, ← framesOf_notes]
    rfl
  rw [publishedAfter, hf, List.drop_left]

/-! ## Entries from two phases -/

/-- Entries that cannot be projected leave an open match as it is. -/
theorem rejected_stay {now : Int} : ∀ {raws : List RawMatch} {ph : Phase}, ph ≠ .settled →
    (∀ raw ∈ raws, toMatch now raw = none) →
    after see ph (raws.map (.entry now)) = ph ∧ hands ph (raws.map (.entry now)) = [] := by
  intro raws
  induction raws with
  | nil => intro ph _ _; exact ⟨rfl, rfl⟩
  | cons raw raws ih =>
    intro ph hph h
    have hsee : see ph (.entry now raw) = (ph, [.listed raw]) := by
      rw [see_unsettled hph, seeEntry, h raw List.mem_cons_self]
    obtain ⟨ha, ho⟩ := ih hph fun r hr => h r (List.mem_cons_of_mem _ hr)
    rw [hands] at ho
    rw [List.map_cons, after_cons, hands, outputs_cons, hsee]
    exact ⟨ha, by simpa [List.filterMap_cons, sentOf] using ho⟩

/-- Once an entry is projected, it no longer matters what was tracked before. -/
theorem accepted_sync {now : Int} : ∀ {raws : List RawMatch} (ph ph' : Phase), ph ≠ .settled → ph' ≠ .settled →
    (∃ raw ∈ raws, (toMatch now raw).isSome = true) →
    after see ph (raws.map (.entry now)) = after see ph' (raws.map (.entry now)) ∧
      hands ph (raws.map (.entry now)) = hands ph' (raws.map (.entry now)) := by
  intro raws
  induction raws with
  | nil =>
    intro ph ph' _ _ h
    obtain ⟨raw, hm, -⟩ := h
    cases hm
  | cons raw raws ih =>
    intro ph ph' hph hph' h
    rw [List.map_cons, after_cons, after_cons, hands, hands, outputs_cons, outputs_cons, see_unsettled hph,
      see_unsettled hph', seeEntry, seeEntry]
    cases hm : toMatch now raw with
    | some frame => simp only [and_self]
    | none =>
      obtain ⟨r, hr, hs⟩ := h
      have hrest : ∃ r ∈ raws, (toMatch now r).isSome = true := by
        rcases List.mem_cons.mp hr with e | hr
        · rw [e, hm] at hs
          cases hs
        · exact ⟨r, hr, hs⟩
      obtain ⟨ha, ho⟩ := ih ph ph' hph hph' hrest
      rw [hands, hands] at ho
      exact ⟨ha, by simpa [List.filterMap_cons, sentOf] using ho⟩

theorem hands_settled (es : List Sight) : hands .settled es = [] := by
  induction es with
  | nil => rfl
  | cons e es ih =>
    rw [hands] at ih
    cases e <;> simpa [hands, see, List.filterMap_cons, sentOf] using ih

theorem hands_accepted {ph : Phase} (hph : ph ≠ .settled) {now : Int} {raw : RawMatch} (h : (toMatch now raw).isSome = true) :
    hands ph [.entry now raw] ≠ [] := by
  obtain ⟨frame, hm⟩ := Option.isSome_iff_exists.mp h
  rw [hands, outputs_cons, see_unsettled hph, seeEntry, hm]
  simp only
  split <;> simp [List.filterMap_cons, sentOf]

/-- Two phases a match cannot be told apart from by what any later boards make of it. -/
def Alike (id : String) (next : Tick) (q r : Phase) : Prop :=
  ∀ later : List Tick, (hands q ((next :: later).flatMap (sights id))).map untimed =
    (hands r ((next :: later).flatMap (sights id))).map untimed

theorem sights_one {id : String} {raw : RawMatch} (h : shows id raw = true) (now : Int) :
    sights id ⟨now, some [raw]⟩ = [.entry now raw] := by
  have : id ∈ seenOn [raw] := (mem_seenOn id [raw]).mpr ⟨raw, by simp, h⟩
  simp [sights, this, h]

theorem sights_empty (id : String) (now : Int) : sights id ⟨now, some []⟩ = [.absent now] := by simp [sights, seenOn]

theorem sights_next {id : String} {next : Tick} {raws : List RawMatch} (hb : next.board = some raws) (hs : id ∈ seenOn raws) :
    sights id next = (raws.filter (shows id)).map (.entry next.now) := by simp [sights, hb, hs]

/-- A match that is open in one run and settled in the other shows the difference. -/
theorem open_not_alike {id : String} {next : Tick} {raws : List RawMatch} (hb : next.board = some raws)
    (hs : id ∈ seenOn raws) {tm : TrackedMatch} (hshow : shows id tm.raw = true) {n : Int}
    (hm : (toMatch n tm.raw).isSome = true) : ¬ Alike id next .settled (.tracked tm) := by
  intro h
  have hne : Phase.tracked tm ≠ .settled := by intro e; cases e
  have hnil : ∀ later : List Tick, hands (.tracked tm) ((next :: later).flatMap (sights id)) = [] := by
    intro later
    have := h later
    rw [hands_settled] at this
    exact List.map_eq_nil_iff.mp this.symm
  have hnext := sights_next hb hs
  rcases entries_hand next.now (raws.filter (shows id)) hne with hopen | hsent
  · -- still open: one more board that lists the tracked entry
    have h2 := hnil [⟨n, some [tm.raw]⟩]
    rw [List.flatMap_cons, hnext, List.flatMap_cons, sights_one hshow, List.flatMap_nil, hands_append] at h2
    exact hands_accepted hopen hm (List.append_eq_nil_iff.mp h2).2
  · have h1 := hnil []
    rw [List.flatMap_cons, hnext, List.flatMap_nil, List.append_nil] at h1
    exact hsent h1

/-- A match tracked in one run only, when no entry of the next board can be projected. -/
theorem tracked_not_alike {id : String} {next : Tick} {raws : List RawMatch} (hb : next.board = some raws)
    (hs : id ∈ seenOn raws) (hrej : ∀ raw ∈ raws, shows id raw = true → toMatch next.now raw = none) {e : RawMatch}
    (hshow : shows id e = true) {n : Int} {frame : Match} (hm : toMatch n e = some frame) :
    ¬ Alike id next .idle (.tracked ⟨e, frame⟩) := by
  intro h
  have hrej' : ∀ raw ∈ raws.filter (shows id), toMatch next.now raw = none := by
    intro raw hr
    rw [List.mem_filter] at hr
    exact hrej raw hr.1 hr.2
  have hne : Phase.tracked ⟨e, frame⟩ ≠ .settled := by intro e; cases e
  have hne' : Phase.idle ≠ .settled := by intro e; cases e
  obtain ⟨ha, ho⟩ := rejected_stay hne hrej'
  obtain ⟨ha', ho'⟩ := rejected_stay hne' hrej'
  have hnext := sights_next hb hs
  have hlater : ∀ later : List Tick, (hands .idle (later.flatMap (sights id))).map untimed =
      (hands (.tracked ⟨e, frame⟩) (later.flatMap (sights id))).map untimed := by
    intro later
    have := h later
    rwa [List.flatMap_cons, hnext, hands_append, hands_append, ha, ha', ho, ho'] at this
  by_cases hf : finishedAtDrop n ⟨e, frame⟩ = true
  · -- a board without it: only the run that tracks it sends a frame
    have := hlater [⟨n, some []⟩]
    rw [List.flatMap_cons, sights_empty, List.flatMap_nil] at this
    simp [hands, see, dropNotes, hf, List.filterMap_cons, sentOf] at this
  · -- a board without it, then one with it: only the other run sends a frame
    have := hlater [⟨n, some []⟩, ⟨n, some [e]⟩]
    have hidle : hands .idle ([.absent n] ++ [.entry n e]) = hands .idle [.entry n e] := rfl
    have hdrop : hands (.tracked ⟨e, frame⟩) [.absent n] = [] := by
      simp [hands, see, dropNotes, hf, List.filterMap_cons, sentOf]
    have hsettled : after see (.tracked ⟨e, frame⟩) [.absent n] = .settled := rfl
    rw [List.flatMap_cons, sights_empty, List.flatMap_cons, sights_one hshow, List.flatMap_nil, List.append_nil, hidle,
      hands_append, hdrop, hsettled, hands_settled] at this
    exact hands_accepted hne' (by rw [hm]; rfl) (List.map_eq_nil_iff.mp this)

/-! ## The gap -/

theorem filter_shows_insert {id : String} {raws raws' : List RawMatch} (hgap : id ∉ seenOn (raws ++ raws')) {e : RawMatch}
    (he : shows id e = true) : (raws ++ e :: raws').filter (shows id) = [e] := by
  have hno : ∀ raw ∈ raws ++ raws', shows id raw = false := by
    intro raw hm
    by_contra hs
    exact hgap ((mem_seenOn id _).mpr ⟨raw, hm, by simpa using hs⟩)
  have h1 : raws.filter (shows id) = [] := List.filter_eq_nil_iff.mpr fun r hr => by simp [hno r (by simp [hr])]
  have h2 : raws'.filter (shows id) = [] := List.filter_eq_nil_iff.mpr fun r hr => by simp [hno r (by simp [hr])]
  simp [h1, h2, he]

theorem sights_without {id : String} {raws raws' : List RawMatch} (hgap : id ∉ seenOn (raws ++ raws')) (now : Int) :
    sights id ⟨now, some (raws ++ raws')⟩ = [.absent now] := by simp only [sights, if_neg hgap]

theorem sights_with {id : String} {raws raws' : List RawMatch} (hgap : id ∉ seenOn (raws ++ raws')) {e : RawMatch}
    (he : shows id e = true) (now : Int) : sights id ⟨now, some (raws ++ e :: raws')⟩ = [.entry now e] := by
  have hs : id ∈ seenOn (raws ++ e :: raws') := (mem_seenOn id _).mpr ⟨e, by simp, he⟩
  simp only [sights, if_pos hs, filter_shows_insert hgap he, List.map_cons, List.map_nil]

/-- What two boards leave of the match decides whether the ticks after them can be told apart. -/
theorem published_alike_iff (sink : Sink RawMatch) (before : List Tick) (now : Int) (raws raws' : List RawMatch) (e : RawMatch)
    (next : Tick) (id : String) (hgap : id ∉ seenOn (raws ++ raws')) (he : shows id e = true) :
    (∀ later, publishedAfter sink (before ++ [⟨now, some (raws ++ raws')⟩]) (next :: later) id =
        publishedAfter sink (before ++ [⟨now, some (raws ++ e :: raws')⟩]) (next :: later) id) ↔
      Alike id next (see (phase (run sink before) id) (.absent now)).1 (see (phase (run sink before) id) (.entry now e)).1 := by
  have hw := run_wf sink before
  have hA : phase (run sink (before ++ [⟨now, some (raws ++ raws')⟩])) id =
      (see (phase (run sink before) id) (.absent now)).1 := by
    rw [run_append, (ticks_refine sink id _ hw).1, List.flatMap_cons, sights_without hgap]
    rfl
  have hB : phase (run sink (before ++ [⟨now, some (raws ++ e :: raws')⟩])) id =
      (see (phase (run sink before) id) (.entry now e)).1 := by
    rw [run_append, (ticks_refine sink id _ hw).1, List.flatMap_cons, sights_with hgap he]
    rfl
  simp only [publishedAfter_hands, hA, hB]
  rfl

/-- A tracked match missing from a board is closed there, and an entry of it would have kept
    it open. -/
theorem tracked_gap_not_alike (sink : Sink RawMatch) (before : List Tick) (now : Int) {e : RawMatch} {next : Tick} {id : String}
    {tm : TrackedMatch} {nraws : List RawMatch} (hph : phase (run sink before) id = .tracked tm) (he : shows id e = true)
    (hplay : isFullTime e = false) (hb : next.board = some nraws) (hs : id ∈ seenOn nraws) :
    ¬ Alike id next (see (.tracked tm) (.absent now)).1 (see (.tracked tm) (.entry now e)).1 := by
  have hw := run_wf sink before
  have ha := phase_eq_tracked hph
  obtain ⟨n, hf⟩ := hw.frame id tm ha
  have hshow : shows id tm.raw = true := by simp [shows, hw.shown id tm ha, hw.key id tm ha]
  cases hm : toMatch now e with
  | none =>
    have hB' : (see (.tracked tm) (.entry now e)).1 = .tracked tm := by simp [see, seeEntry, hm]
    rw [hB']
    exact open_not_alike hb hs hshow (by rw [hf]; rfl)
  | some frame =>
    have hB' : (see (.tracked tm) (.entry now e)).1 = .tracked ⟨e, frame⟩ := by simp [see, seeEntry, hm, hplay]
    rw [hB']
    exact open_not_alike (n := now) hb hs he (by rw [hm]; rfl)

/-- A gap of one board goes unseen exactly when the match was settled already, or was not
    tracked and the entry left out makes no difference. -/
theorem gap_unseen_iff (sink : Sink RawMatch) (before : List Tick) (now : Int) (raws raws' : List RawMatch) (e : RawMatch)
    (next : Tick) (id : String) (hgap : id ∉ seenOn (raws ++ raws')) (he : shows id e = true) (hplay : isFullTime e = false)
    (hnext : ∃ nraws, next.board = some nraws ∧ id ∈ seenOn nraws) :
    (∀ later, publishedAfter sink (before ++ [⟨now, some (raws ++ raws')⟩]) (next :: later) id =
        publishedAfter sink (before ++ [⟨now, some (raws ++ e :: raws')⟩]) (next :: later) id) ↔
      GapUnseen (run sink before) id now e next := by
  obtain ⟨nraws, hb, hs⟩ := hnext
  rw [published_alike_iff sink before now raws raws' e next id hgap he]
  unfold GapUnseen
  cases hph : phase (run sink before) id with
  | settled => simp [see, Alike]
  | idle =>
    cases hm : toMatch now e with
    | none => simp [see, seeEntry, hm, Alike]
    | some frame =>
      have hB' : (see .idle (.entry now e)).1 = .tracked ⟨e, frame⟩ := by simp [see, seeEntry, hm, hplay]
      rw [hB']
      constructor
      · intro h
        refine Or.inr ⟨rfl, Or.inr ⟨nraws, hb, ?_⟩⟩
        by_contra hno
        refine tracked_not_alike hb hs (fun raw hr hsh => ?_) he hm h
        by_contra hsome
        exact hno ⟨raw, hr, hsh, Option.isSome_iff_ne_none.mpr hsome⟩
      · intro hcase
        rcases hcase with hc | ⟨-, hc | ⟨raws'', hb', raw, hr, hsh, hsome⟩⟩
        · cases hc
        · cases hc
        · rw [hb] at hb'
          cases hb'
          intro later
          have hsync := accepted_sync .idle (.tracked ⟨e, frame⟩) (by intro e; cases e) (by intro e; cases e)
            ⟨raw, List.mem_filter.mpr ⟨hr, hsh⟩, hsome⟩
          have hab : (see .idle (.absent now)).1 = .idle := rfl
          rw [hab, List.flatMap_cons, sights_next hb hs, hands_append, hands_append, hsync.1, hsync.2]
  | tracked tm =>
    have hno := tracked_gap_not_alike sink before now hph he hplay hb hs
    simp [hno]

/-- An untracked match: its one entry so far had no quote, and the next board has one. -/
theorem gap_before_the_first_quote :
    publishedAfter accept ([boardAt 3400 [home7 false 0 "40 minutes" none]] ++ [⟨3460 * second, some ([] ++ [])⟩])
        [boardAt 3520 [home7 true 0 "42 minutes" none]] "hb-7" =
      publishedAfter accept
        ([boardAt 3400 [home7 false 0 "40 minutes" none]] ++
          [⟨3460 * second, some ([] ++ home7 true 0 "41 minutes" none :: [])⟩])
        [boardAt 3520 [home7 true 0 "42 minutes" none]] "hb-7" := by
  refine (gap_unseen_iff accept _ _ [] [] (home7 true 0 "41 minutes" none) _ "hb-7" (by decide) (by decide) (by decide)
    ⟨_, rfl, by decide⟩).mpr
    (Or.inr ⟨?_, Or.inr ⟨_, rfl, _, List.mem_singleton_self _, by decide, by decide +kernel⟩⟩) []
  rw [run_phase]
  rfl

/-- In play: not finished, the timer early, the kickoff recent. -/
def inPlay (now : Int) (raw : RawMatch) : Bool :=
  listed raw && !isFullTime raw && !clockLateForDrop raw && decide (now - Calendar.timeUnix raw.startTs * second ≤ 90 * minute)

/-- Minutes 40 to 43, the board of minute 41 without the match in the first run. -/
theorem a_one_tick_gap_ends_the_match :
    let e (status : String) (sec : Int) := home7 true 0 status (some ⟨sec, true⟩)
    let later := [boardAt 3520 [e "42 minutes" 2520], boardAt 6400 [e "FT" 5400]]
    inPlay (3460 * second) (e "40 minutes" 2400) = true ∧ inPlay (3460 * second) (e "41 minutes" 2460) = true ∧
      inPlay (3520 * second) (e "42 minutes" 2520) = true ∧
      publishedAfter accept [boardAt 3400 [e "40 minutes" 2400], boardAt 3460 []] later "hb-7" ≠
        publishedAfter accept [boardAt 3400 [e "40 minutes" 2400], boardAt 3460 [e "41 minutes" 2460]] later "hb-7" := by
  refine ⟨by decide, by decide, by decide, fun h => ?_⟩
  exact absurd (congrArg (List.map (·.clock)) h) (by decide +kernel)

end CasuyaLive.Ingest.Helabet
