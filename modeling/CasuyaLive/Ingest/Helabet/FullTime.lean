/-
  CasuyaLive.Ingest.Helabet.FullTime — the FULLTIME frames of a run of the poll loop.

  (1) The score. A frame the poller hands over for an entry carries that entry's score. The
  frame it hands over for a match that left the board carries the score of the last entry
  it could project. `fulltime_score_iff`: every FULLTIME frame of a run carries the score of
  the match's last entry iff every match it takes as finished at a drop was last listed with
  the score it is tracked with. A market suspended between the last goal and the whistle
  breaks it (`a_suspended_market_freezes_the_score`).

  (2) Once, and last. `parseClock` looks for "FT" anywhere in the status line, `isFullTime`
  wants the whole line to be "FT". Where the two agree on what the poller projects
  (`ClocksAgree`), each match has at most one FULLTIME frame and no frame follows it; a
  board on which they do not, polled twice, breaks it (`fulltime_once_and_last`): every
  tick is full time (`a_status_with_ft_inside_ends_the_match_every_tick`).
-/

import CasuyaLive.Ingest.Helabet.Track

namespace CasuyaLive.Ingest.Helabet

open CasuyaLive.Lib CasuyaLive.Ingest.Stream

/-! ## (1) The score -/

def listedOf : Note → Option RawMatch
  | .listed raw => some raw
  | .sent _ => none
  | .stopped _ => none

/-- The most recent entry of the match. -/
def lastListed (l : List Note) : Option RawMatch := (l.filterMap listedOf).getLast?

/-- A FULLTIME frame shows the score of the last entry before it. -/
def ScoreShown (pre : List Note) : Note → Prop
  | .sent m => m.clock = fulltime → (lastListed pre).map scoreOf = some m.score
  | _ => True

instance (pre : List Note) (n : Note) : Decidable (ScoreShown pre n) :=
  match n with
  | .sent m => inferInstanceAs (Decidable (m.clock = fulltime → (lastListed pre).map scoreOf = some m.score))
  | .listed _ => isTrue trivial
  | .stopped _ => isTrue trivial

/-- The matches that finish by leaving the board were last listed with their tracked score. -/
def DropsCurrent (p : Poller) (t : Tick) : Prop :=
  ∀ raws, t.board = some raws → ∀ id tm, p.active.get? id = some tm → id ∉ seenOn raws → finishedAtDrop t.now tm = true →
    (lastListed (notes id p.log)).map scoreOf = some (scoreOf tm.raw)

theorem seeEntry_shown (pre : List Note) (ph : Phase) (now : Int) (raw : RawMatch) :
    Each (fun l => ScoreShown (pre ++ l)) (seeEntry ph now raw).2 := by
  unfold seeEntry
  cases hm : toMatch now raw with
  | none => simp [each_cons, ScoreShown]
  | some frame =>
    have hs := (toMatch_spec hm).2.1
    simp only
    split <;> simp [each_cons, ScoreShown, lastListed, listedOf, hs]

theorem entry_shown (pre : List Note) (ph : Phase) (now : Int) (raw : RawMatch) :
    Each (fun l => ScoreShown (pre ++ l)) (see ph (.entry now raw)).2 := by
  cases ph with
  | idle => exact seeEntry_shown pre _ now raw
  | tracked tm => exact seeEntry_shown pre _ now raw
  | settled => simp [see, each_cons, ScoreShown]

theorem entries_shown (now : Int) : ∀ (raws : List RawMatch) (pre : List Note) (ph : Phase),
    Each (fun l => ScoreShown (pre ++ l)) (outputs see ph (raws.map (.entry now))) := by
  intro raws
  induction raws with
  | nil => intro pre ph; simp
  | cons raw raws ih =>
    intro pre ph
    rw [List.map_cons, outputs_cons, each_append]
    refine ⟨entry_shown pre ph now raw, ?_⟩
    simp only [← List.append_assoc]
    exact ih _ _

theorem drop_shown (pre : List Note) (now : Int) (tm : TrackedMatch) (hs : tm.lastFrame.score = scoreOf tm.raw) :
    Each (fun l => ScoreShown (pre ++ l)) (dropNotes now tm) ↔
      (finishedAtDrop now tm = true → (lastListed pre).map scoreOf = some (scoreOf tm.raw)) := by
  unfold dropNotes
  split
  · rename_i hf
    simp [each_cons, ScoreShown, hs, hf]
  · rename_i hf
    simp [each_cons, ScoreShown, hf]

theorem WF.score {p : Poller} (h : WF p) {id : String} {tm : TrackedMatch} (ha : p.active.get? id = some tm) :
    tm.lastFrame.score = scoreOf tm.raw := by
  obtain ⟨now, hf⟩ := h.frame id tm ha
  exact (toMatch_spec hf).2.1

/-- What a tick adds about one match. -/
theorem sights_shown {p : Poller} (h : WF p) (id : String) (t : Tick) :
    Each (fun l => ScoreShown (notes id p.log ++ l)) (outputs see (phase p id) (sights id t)) ↔
      ∀ raws, t.board = some raws → ∀ tm, p.active.get? id = some tm → id ∉ seenOn raws → finishedAtDrop t.now tm = true →
        (lastListed (notes id p.log)).map scoreOf = some (scoreOf tm.raw) := by
  unfold sights
  cases t.board with
  | none => simp
  | some raws =>
    by_cases hs : id ∈ seenOn raws
    · have hshown := entries_shown t.now (raws.filter (shows id)) (notes id p.log) (phase p id)
      simp [hs, hshown]
    · simp only [hs, if_false, outputs_cons, outputs_nil, List.append_nil]
      cases ha : p.active.get? id with
      | none =>
        by_cases hm : id ∈ p.settled
        · rw [phase_settled hm]; simp [see]
        · rw [phase_idle hm ha]; simp [see]
      | some tm =>
        rw [phase_tracked (h.unsettled id tm ha) ha]
        simp only [see, drop_shown _ _ _ (h.score ha)]
        simp [hs]

/-- Every FULLTIME frame of a run carries the last seen score, iff the drops are current. -/
theorem fulltime_score_iff (sink : Sink RawMatch) (ts : List Tick) :
    (∀ id, Each ScoreShown (notes id (run sink ts).log)) ↔ Meets (tick sink) DropsCurrent new ts := by
  have hrun := run_iff (tick sink) DropsCurrent WF (fun p => ∀ id, Each ScoreShown (notes id p.log)) ts
    (fun p t _ h => tick_wf sink h t) ?_ new_wf
  · refine hrun.trans (and_iff_right ?_)
    intro id
    simp [new, notes]
  · intro p t _ h
    have hid : ∀ id, Each ScoreShown (notes id (tick sink p t).log) ↔ Each ScoreShown (notes id p.log) ∧
        ∀ raws, t.board = some raws → ∀ tm, p.active.get? id = some tm → id ∉ seenOn raws →
          finishedAtDrop t.now tm = true → (lastListed (notes id p.log)).map scoreOf = some (scoreOf tm.raw) := by
      intro id
      rw [(tick_refines sink h id t).2, each_append, sights_shown h id t]
    constructor
    · intro hq
      exact ⟨fun id => ((hid id).mp (hq id)).1, fun raws hb id tm ha => ((hid id).mp (hq id)).2 raws hb tm ha⟩
    · intro h id
      obtain ⟨hq, hc⟩ := h
      exact (hid id).mpr ⟨hq id, fun raws hb tm ha => hc raws hb id tm ha⟩

/-- Kicked off at second 1000, with a quote when `quoted`. -/
def home7 (quoted : Bool) (score1 : Int) (status : String) (timer : Option MatchTimer) : RawMatch :=
  { id := 7, sport := ⟨1, "Football"⟩, liga := "League", opponent1 := "Home", opponent2 := "Away"
    scores := some ⟨score1, 0, status, 2, timer, none⟩
    eventGroups := if quoted then [⟨1, [[⟨1, 2⟩], [⟨2, 3⟩], [⟨3, 4⟩]]⟩] else []
    startTs := 1000 }

def boardAt (s : Int) (raws : List RawMatch) : Tick := ⟨s * second, some raws⟩

/-- The last goal falls while the market is suspended. -/
def lateGoal : List Tick :=
  [boardAt 6300 [home7 true 1 "88 minutes" (some ⟨5300, true⟩)],
    boardAt 6340 [home7 false 2 "89 minutes" (some ⟨5340, true⟩)],
    boardAt 7000 []]

theorem a_suspended_market_freezes_the_score : ¬ Each ScoreShown (notes "hb-7" (run accept lateGoal).log) := by
  decide +kernel

/-! ## (2) Once, and last -/

/-- At most one FULLTIME frame, and none after it. -/
structure FullTimeLast (l : List Match) : Prop where
  once : l.countP (·.clock == fulltime) ≤ 1
  last : Each (fun pre _ => ∀ m ∈ pre, m.clock ≠ fulltime) l

def move (ph : Phase) (e : Sight) : Phase := (see ph e).1

/-- An entry of an unsettled match that is projected with the FULLTIME clock settles it. -/
def ClockAgrees (ph : Phase) : Sight → Prop
  | .entry now raw =>
    ph ≠ .settled → (toMatch now raw).isSome = true → parseClock (statusOf raw) (timerOf raw) = fulltime →
      isFullTime raw = true
  | .absent _ => True

def ClocksAgree (p : Poller) (t : Tick) : Prop := ∀ id, Meets move ClockAgrees (phase p id) (sights id t)

def sentOf : Note → Option Match
  | .listed _ => none
  | .sent m => some m
  | .stopped _ => none

theorem framesOf_notes (id : String) (log : List (Obs RawMatch)) : framesOf id log = (notes id log).filterMap sentOf := by
  induction log with
  | nil => rfl
  | cons o log ih =>
    cases o with
    | listed raw =>
      by_cases h : matchIDKey raw.id = id <;> simpa [framesOf, frames, notes, noteOf, List.filterMap_cons, sentOf, h] using ih
    | sent m ok =>
      by_cases h : m.matchID = id <;> simpa [framesOf, frames, notes, noteOf, List.filterMap_cons, sentOf, h] using ih
    | stopped i fin =>
      by_cases h : i = id <;> simpa [framesOf, frames, notes, noteOf, List.filterMap_cons, sentOf, h] using ih

/-- Nothing has ended yet. -/
def NoFullTime (l : List Match) : Prop := ∀ m ∈ l, m.clock ≠ fulltime

theorem NoFullTime.count {l : List Match} (h : NoFullTime l) : l.countP (·.clock == fulltime) = 0 := by
  rw [List.countP_eq_zero]
  intro m hm
  simpa using h m hm

theorem NoFullTime.fullTimeLast {l : List Match} (h : NoFullTime l) : FullTimeLast l where
  once := by rw [h.count]; omega
  last := by
    intro pre x post e m hm
    exact h m (by rw [e]; simp [hm])

theorem NoFullTime.append_one {l : List Match} (h : NoFullTime l) (m : Match) : FullTimeLast (l ++ [m]) where
  once := by
    have hone : [m].countP (·.clock == fulltime) ≤ 1 := List.countP_le_length
    rw [List.countP_append, h.count]
    omega
  last := by
    rw [each_append]
    refine ⟨h.fullTimeLast.last, ?_⟩
    rw [each_cons]
    refine ⟨fun x hx => ?_, each_nil⟩
    exact h x (by simpa using hx)

/-- Two frames, the first of them FULLTIME. -/
theorem not_fullTimeLast {a b c : List Match} {m n : Match} (hm : m.clock = fulltime) :
    ¬ FullTimeLast (a ++ m :: (b ++ n :: c)) := fun h =>
  h.last (a ++ m :: b) n c (by simp) m (by simp) hm

/-- The frames of a match in a phase: none is FULLTIME until it is settled. -/
def Closed (ph : Phase) (l : List Match) : Prop := FullTimeLast l ∧ (ph ≠ .settled → NoFullTime l)

theorem seeEntry_closed {ph : Phase} (hph : ph ≠ .settled) {l : List Match} (h : NoFullTime l) {now : Int} {raw : RawMatch}
    (hc : ClockAgrees ph (.entry now raw)) :
    Closed (seeEntry ph now raw).1 (l ++ (seeEntry ph now raw).2.filterMap sentOf) := by
  unfold seeEntry
  cases hm : toMatch now raw with
  | none => exact ⟨by simpa [List.filterMap_cons, sentOf] using h.fullTimeLast, fun _ => by simpa [List.filterMap_cons, sentOf] using h⟩
  | some frame =>
    simp only
    split
    · refine ⟨?_, fun hne => absurd rfl hne⟩
      have : [Note.listed raw, .sent (frame.settlement now), .stopped true].filterMap sentOf = [frame.settlement now] := rfl
      rw [this]
      exact h.append_one _
    · rename_i hf
      have hclock : frame.clock ≠ fulltime := by
        intro e
        rw [(toMatch_spec hm).2.2] at e
        exact hf (hc hph (by simp [hm]) e)
      have hall : NoFullTime (l ++ [frame]) := by
        intro m hm'
        rcases List.mem_append.mp hm' with hm' | hm'
        · exact h m hm'
        · rw [List.mem_singleton.mp hm']
          exact hclock
      exact ⟨hall.fullTimeLast, fun _ => hall⟩

theorem see_closed {ph : Phase} {l : List Match} (h : Closed ph l) {e : Sight} (hc : ClockAgrees ph e) :
    Closed (see ph e).1 (l ++ (see ph e).2.filterMap sentOf) := by
  cases ph with
  | settled => cases e <;> simpa [see, List.filterMap_cons, sentOf, Closed] using h.1
  | idle =>
    have hne : Phase.idle ≠ .settled := by intro e; cases e
    cases e with
    | entry now raw => exact seeEntry_closed hne (h.2 hne) hc
    | absent now => simpa [see] using h
  | tracked tm =>
    have hne : Phase.tracked tm ≠ .settled := by intro e; cases e
    cases e with
    | entry now raw => exact seeEntry_closed hne (h.2 hne) hc
    | absent now =>
      have hno := h.2 hne
      refine ⟨?_, fun hne => absurd rfl hne⟩
      simp only [see, dropNotes]
      split
      · exact hno.append_one _
      · simpa [List.filterMap_cons, sentOf] using h.1

theorem sights_closed : ∀ (es : List Sight) {ph : Phase} {l : List Match}, Closed ph l → Meets move ClockAgrees ph es →
    Closed (after see ph es) (l ++ (outputs see ph es).filterMap sentOf) := by
  intro es
  induction es with
  | nil => intro ph l h _; simpa using h
  | cons e es ih =>
    intro ph l h hm
    rw [after_cons, outputs_cons, List.filterMap_append, ← List.append_assoc]
    exact ih (see_closed h hm.1) hm.2

theorem run_closed (sink : Sink RawMatch) {ts : List Tick} (h : Meets (tick sink) ClocksAgree new ts) (id : String) :
    Closed (phase (run sink ts) id) (framesOf id (run sink ts).log) := by
  have hI := run_inv (fun p => WF p ∧ ∀ id, Closed (phase p id) (framesOf id p.log)) ?_ ?_ h
  · exact hI.2 id
  · intro p t h hc
    obtain ⟨hw, hp⟩ := h
    refine ⟨tick_wf sink hw t, fun id => ?_⟩
    obtain ⟨hph, hn⟩ := tick_refines sink hw id t
    rw [framesOf_notes, hph, hn, List.filterMap_append, ← framesOf_notes]
    exact sights_closed _ (hp id) (hc id)
  · have hno : NoFullTime [] := by
      intro m hm
      cases hm
    exact ⟨new_wf, fun id => ⟨hno.fullTimeLast, fun _ => hno⟩⟩

/-! A board that does not agree, polled twice. -/

def hands (ph : Phase) (es : List Sight) : List Match := (outputs see ph es).filterMap sentOf

theorem hands_append (ph : Phase) (es fs : List Sight) : hands ph (es ++ fs) = hands ph es ++ hands (after see ph es) fs := by
  rw [hands, outputs_append, List.filterMap_append]
  rfl

theorem see_unsettled {ph : Phase} (hph : ph ≠ .settled) (now : Int) (raw : RawMatch) :
    see ph (.entry now raw) = seeEntry ph now raw := by
  cases ph with
  | idle => rfl
  | tracked tm => rfl
  | settled => exact absurd rfl hph

/-- Entries settle a match only by handing over a frame. -/
theorem entries_hand (now : Int) : ∀ (raws : List RawMatch) {ph : Phase}, ph ≠ .settled →
    after see ph (raws.map (.entry now)) ≠ .settled ∨ hands ph (raws.map (.entry now)) ≠ [] := by
  intro raws
  induction raws with
  | nil => intro ph h; exact Or.inl h
  | cons raw raws ih =>
    intro ph h
    have hsee := see_unsettled h now raw
    rw [List.map_cons, after_cons, hands, outputs_cons, List.filterMap_append, hsee]
    unfold seeEntry
    cases hm : toMatch now raw with
    | none =>
      rcases ih h with hi | hi
      · exact Or.inl hi
      · exact Or.inr fun e => hi (List.append_eq_nil_iff.mp e).2
    | some frame =>
      right
      simp only
      split <;> simp [List.filterMap_cons, sentOf]

/-- An entry that is no FULLTIME keeps the match tracked and hands over its frame. -/
theorem see_open {now : Int} {raw : RawMatch} {frame : Match} (hm : toMatch now raw = some frame) (hfull : isFullTime raw = false)
    {ph : Phase} (hph : ph ≠ .settled) :
    see ph (.entry now raw) = (.tracked ⟨raw, frame⟩, [.listed raw, .sent frame]) := by
  rw [see_unsettled hph, seeEntry, hm]
  simp [hfull]

/-- Other entries and it once more hand over at least one frame. -/
theorem entries_then_open {now : Int} {raw : RawMatch} {frame : Match} (hm : toMatch now raw = some frame)
    (hfull : isFullTime raw = false) {ph : Phase} (hph : ph ≠ .settled) (raws : List RawMatch) (rest : List Sight) :
    hands ph (raws.map (.entry now) ++ (.entry now raw :: rest)) ≠ [] := by
  rw [hands_append]
  rcases entries_hand now raws hph with hopen | hsent
  · intro e
    have h2 := (List.append_eq_nil_iff.mp e).2
    rw [hands, outputs_cons, see_open hm hfull hopen] at h2
    simp [List.filterMap_cons, sentOf] at h2
  · intro e
    exact hsent (List.append_eq_nil_iff.mp e).1

theorem disagree_twice {ph : Phase} {now : Int} {raws : List RawMatch}
    (h : ¬ Meets move ClockAgrees ph (raws.map (.entry now))) :
    ¬ FullTimeLast (hands ph (raws.map (.entry now) ++ raws.map (.entry now))) := by
  obtain ⟨pre, e, post, hes, hc⟩ := not_meets_iff.mp h
  obtain ⟨rs, rest, rfl, hpre, hrest⟩ := List.map_eq_append_iff.mp hes
  obtain ⟨raw, rs', rfl, rfl, hpost⟩ := List.map_eq_cons_iff.mp hrest
  simp only [ClockAgrees, not_forall] at hc
  obtain ⟨hph, hsome, hclock, hfull⟩ := hc
  rw [Bool.not_eq_true] at hfull
  obtain ⟨frame, hm⟩ := Option.isSome_iff_exists.mp hsome
  have hfc : frame.clock = fulltime := by rw [(toMatch_spec hm).2.2, hclock]
  have hsee : see (pre.foldl move ph) (.entry now raw) = (.tracked ⟨raw, frame⟩, [.listed raw, .sent frame]) :=
    see_open hm hfull hph
  have hone : hands (after see ph pre) [.entry now raw] = [frame] := by
    show hands (pre.foldl move ph) [.entry now raw] = [frame]
    rw [hands, outputs_cons, hsee]
    rfl
  have hafter : after see ph (pre ++ [.entry now raw]) = .tracked ⟨raw, frame⟩ := by
    rw [after_append, after_cons, after_nil]
    exact congrArg Prod.fst hsee
  -- what stands between its two readings either hands over a frame or leaves the match open
  have hsplit : hands (.tracked ⟨raw, frame⟩) (post ++ (pre ++ .entry now raw :: post)) ≠ [] := by
    have hmid : post ++ (pre ++ Sight.entry now raw :: post) = (rs' ++ rs).map (.entry now) ++ (.entry now raw :: post) := by
      rw [List.map_append, hpre, hpost, List.append_assoc]
    rw [hmid]
    exact entries_then_open hm hfull (by intro e; cases e) _ _
  obtain ⟨n, c, hnc⟩ := List.exists_cons_of_ne_nil hsplit
  have htwice : (rs ++ raw :: rs').map (Sight.entry now) ++ (rs ++ raw :: rs').map (Sight.entry now) =
      (pre ++ [.entry now raw]) ++ (post ++ (pre ++ .entry now raw :: post)) := by
    rw [hes]
    simp
  have hall : hands ph ((rs ++ raw :: rs').map (.entry now) ++ (rs ++ raw :: rs').map (.entry now)) =
      hands ph pre ++ frame :: ([] ++ n :: c) := by
    rw [htwice, hands_append, hafter, hnc, hands_append, hone]
    simp
  rw [hall]
  exact not_fullTimeLast hfc

theorem FullTimeLast.tail {a b : List Match} (h : FullTimeLast (a ++ b)) : FullTimeLast b where
  once := by
    have := h.once
    rw [List.countP_append] at this
    omega
  last := by
    have hb := (each_append.mp h.last).2
    exact hb.mono fun pre x _ hx m hm => hx m (List.mem_append_right _ hm)

theorem disagree_tick (sink : Sink RawMatch) {p : Poller} (h : WF p) {t : Tick} (hc : ¬ ClocksAgree p t) :
    ∃ id, ¬ FullTimeLast (framesOf id (tick sink (tick sink p t) t).log) := by
  simp only [ClocksAgree, not_forall] at hc
  obtain ⟨id, hc⟩ := hc
  obtain ⟨raws, hes⟩ : ∃ raws : List RawMatch, sights id t = raws.map (.entry t.now) := by
    unfold sights at hc ⊢
    cases hb : t.board with
    | none => exact ⟨[], rfl⟩
    | some raws =>
      simp only [hb] at hc
      by_cases hs : id ∈ seenOn raws
      · exact ⟨_, if_pos hs⟩
      · rw [if_neg hs] at hc
        exact absurd ⟨trivial, trivial⟩ hc
  refine ⟨id, fun hl => ?_⟩
  obtain ⟨-, hn⟩ := ticks_refine sink id [t, t] h
  simp only [List.foldl_cons, List.foldl_nil] at hn
  rw [framesOf_notes, hn, List.filterMap_append] at hl
  have hlast := hl.tail
  rw [List.flatMap_cons, List.flatMap_cons, List.flatMap_nil, List.append_nil, hes] at hlast
  rw [hes] at hc
  exact disagree_twice hc hlast

/-- A run whose boards agree has one FULLTIME frame a match at most, the last of the match;
    a board that does not agree, polled twice, breaks it. -/
theorem fulltime_once_and_last (sink : Sink RawMatch) (ts : List Tick) :
    (Meets (tick sink) ClocksAgree new ts → ∀ id, FullTimeLast (framesOf id (run sink ts).log)) ∧
      ∀ t, ¬ ClocksAgree (run sink ts) t → ∃ id, ¬ FullTimeLast (framesOf id (run sink (ts ++ [t, t])).log) := by
  refine ⟨fun h id => (run_closed sink h id).1, fun t ht => ?_⟩
  rw [run_append]
  exact disagree_tick sink (run_wf sink ts) ht

theorem entries_agree {ph : Phase} {now : Int} : ∀ {raws : List RawMatch},
    (∀ raw ∈ raws, parseClock (statusOf raw) (timerOf raw) = fulltime → isFullTime raw = true) →
    Meets move ClockAgrees ph (raws.map (.entry now)) := by
  intro raws
  induction raws generalizing ph with
  | nil => intro _; trivial
  | cons raw raws ih =>
    intro h
    exact ⟨fun _ _ => h raw List.mem_cons_self, ih fun r hr => h r (List.mem_cons_of_mem _ hr)⟩

/-- A board whose status lines read the same both ways. -/
theorem board_agrees {p : Poller} {t : Tick} (h : ∀ raws, t.board = some raws → ∀ raw ∈ raws,
    parseClock (statusOf raw) (timerOf raw) = fulltime → isFullTime raw = true) : ClocksAgree p t := by
  intro id
  unfold sights
  cases hb : t.board with
  | none => trivial
  | some raws =>
    simp only
    split
    · exact entries_agree fun raw hr => h raws hb raw (List.mem_of_mem_filter hr)
    · exact ⟨trivial, trivial⟩

/-- Full time on two boards in a row. -/
def twiceFull (status : String) : List Tick :=
  [boardAt 6300 [home7 true 1 "88 minutes" none], boardAt 6420 [home7 true 2 status none], boardAt 6480 [home7 true 2 status none]]

theorem ft_ends_the_match_once : ∀ id, FullTimeLast (framesOf id (run accept (twiceFull "FT")).log) := by
  refine (fulltime_once_and_last accept (twiceFull "FT")).1 ⟨?_, ?_, ?_, trivial⟩ <;> apply board_agrees <;>
    (intro raws hb; cases hb; decide)

theorem a_status_with_ft_inside_ends_the_match_every_tick :
    ¬ FullTimeLast (framesOf "hb-7" (run accept (twiceFull "FT 2-1")).log) := fun h => absurd h.once (by decide +kernel)

end CasuyaLive.Ingest.Helabet
