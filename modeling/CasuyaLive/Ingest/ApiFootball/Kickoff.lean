/-
  CasuyaLive.Ingest.ApiFootball.Kickoff — kickoffs the feed has the date and time of
  (data-ingestion-go, internal/apifootball/poller.go: `i64`, `decodeEvent`, `cycle`).

  A kickoff is a minute since 1970, written as the feed writes it: the date, and the time of
  day as hours and minutes. `i64_kickoff`: the two read together give the second the minute
  begins with, for every minute up to the year 9999. `scheduled_kickoff`: when every row of a
  fixture has its kickoff, so has every frame of it in every run, the settlement frame too,
  and the replay puts them all into the cycle of that second.
-/

import CasuyaLive.Lib.Calendar
import CasuyaLive.Ingest.ApiFootball.Fixture

namespace CasuyaLive.Ingest.ApiFootball

open CasuyaLive.Lib CasuyaLive.Ingest.Stream
open CasuyaLive.Lib.Text (trimSpace)

/-! ## The text of a kickoff -/

def kickoffDate (n : Int) : String := String.ofList (Calendar.dateText (Calendar.civil (n / 1440)))

/-- Hours and minutes. -/
def clockText (k : Nat) : List Char := Calendar.pad 2 (k / 60) ++ ':' :: Calendar.pad 2 (k % 60)

def kickoffTime (n : Int) : String := String.ofList (clockText (n % 1440).toNat)

/-- The minutes whose date the layout can hold. -/
structure InLayout (n : Int) : Prop where
  first : 0 ≤ (Calendar.civil (n / 1440)).year
  last : (Calendar.civil (n / 1440)).year < 10000

theorem digits_pad {w n : Nat} (h : n < 10 ^ w) (cs : List Char) : digits w (Calendar.pad w n ++ cs) = some (n, cs) :=
  Calendar.fixed_pad h cs

theorem expect_cons (c : Char) (cs : List Char) : expect c (c :: cs) = some cs := by
  rw [expect, if_pos rfl]

theorem daysSinceEpoch_eq {y m d : Nat} (hm : 1 ≤ m ∧ m ≤ 12) : daysSinceEpoch y m d = (Calendar.Date.mk y m d).days := by
  have hera : ∀ year : Int, year / 400 * 146097 + ((year - year / 400 * 400) * 365 + (year - year / 400 * 400) / 4 -
      (year - year / 400 * 400) / 100) = 365 * year + year / 4 - year / 100 + year / 400 := by
    intro year
    have hera : year = 400 * (year / 400) + year % 400 := by omega
    have hof : 0 ≤ year % 400 ∧ year % 400 < 400 := by omega
    generalize year / 400 = k at *
    generalize year % 400 = r at *
    subst hera
    have hr : 400 * k + r - k * 400 = r := by omega
    rw [hr]
    omega
  simp only [daysSinceEpoch, Calendar.Date.days, Calendar.YearDay.days]
  by_cases h : m ≤ 2
  · have hmonth : (m + 9) % 12 = m + 9 := by omega
    have hm2 : (m : Int) ≤ 2 := by omega
    rw [if_pos h, if_pos hm2, if_pos hm2, hmonth, ← hera]
    push_cast
    omega
  · have hmonth : (m + 9) % 12 = m - 3 := by omega
    have hm2 : ¬ (m : Int) ≤ 2 := by omega
    rw [if_neg h, if_neg hm2, if_neg hm2, hmonth, ← hera]
    omega

theorem daysIn_eq (y m : Nat) : (daysIn y m : Int) = Calendar.daysIn y m := by
  have hleap : isLeap y = Calendar.isLeap y := by
    rw [Bool.eq_iff_iff]
    simp only [isLeap, Calendar.isLeap, Bool.and_eq_true, Bool.or_eq_true, beq_iff_eq, bne_iff_ne, decide_eq_true_eq]
    omega
  simp only [daysIn, Calendar.daysIn, hleap, List.mem_cons, List.not_mem_nil, or_false]
  split_ifs <;> omega

theorem parseDate_text {x : Calendar.Date} (hv : x.valid = true) (hy : 0 ≤ x.year ∧ x.year < 10000) (cs : List Char) :
    parseDate (Calendar.dateText x ++ cs) = some (x.days, cs) := by
  obtain ⟨y, m, d⟩ := x
  simp only [Calendar.Date.valid, Bool.and_eq_true] at hv
  simp only [decide_eq_true_eq] at hv
  obtain ⟨⟨⟨hm1, hm2⟩, hd1⟩, hd2⟩ := hv
  obtain ⟨hy0, hy1⟩ := hy
  simp only at hy0 hy1
  obtain ⟨y, rfl⟩ := Int.eq_ofNat_of_zero_le hy0
  obtain ⟨m, rfl⟩ := Int.eq_ofNat_of_zero_le (Int.le_trans (by decide) hm1)
  obtain ⟨d, rfl⟩ := Int.eq_ofNat_of_zero_le (Int.le_trans (by decide) hd1)
  rw [← daysIn_eq] at hd2
  have hd3 : daysIn y m ≤ 31 := by
    unfold daysIn
    split_ifs <;> omega
  simp only [parseDate, Calendar.dateText, Int.toNat_natCast, List.append_assoc, List.cons_append, Option.bind_eq_bind]
  rw [digits_pad (by omega), Option.bind_some]
  simp only [expect_cons, Option.bind_some]
  rw [digits_pad (by omega), Option.bind_some]
  simp only [expect_cons, Option.bind_some]
  rw [digits_pad (by omega), Option.bind_some]
  simp only
  rw [if_pos (by omega), daysSinceEpoch_eq (by omega)]

theorem parseClock_text {k : Nat} (h : k < 1440) : parseClock (clockText k) = some (k, []) := by
  have hshort : ∀ cs, shortNumber (Calendar.pad 2 (k / 60) ++ cs) = some (k / 60, cs) := by
    intro cs
    rw [shortNumber, digits_pad (by omega)]
    rfl
  have hmin : digits 2 (Calendar.pad 2 (k % 60)) = some (k % 60, []) := by
    have hpad := digits_pad (w := 2) (n := k % 60) (by omega) []
    rwa [List.append_nil] at hpad
  simp only [parseClock, clockText, Option.bind_eq_bind]
  rw [hshort, Option.bind_some]
  simp only [expect_cons, Option.bind_some]
  rw [hmin, Option.bind_some]
  simp only
  rw [if_pos (by omega)]
  congr 2
  omega

theorem kickoff_chars (n : Int) : (kickoffDate n ++ " " ++ kickoffTime n).toList =
    Calendar.dateText (Calendar.civil (n / 1440)) ++ ' ' :: clockText (n % 1440).toNat := by
  rw [String.toList_append, String.toList_append, kickoffDate, kickoffTime, String.toList_ofList, String.toList_ofList]
  simp

theorem digit_space {c : Char} (h : c.isDigit = true) : Text.isSpace c = false := by
  have hpy := Text.isPySpace_digit h
  rw [Text.isPySpace, Bool.or_eq_false_iff] at hpy
  exact hpy.1

/-- The date and the time read together give the second the minute begins with. -/
theorem i64_kickoff {n : Int} (h : InLayout n) : i64 (kickoffDate n ++ " " ++ kickoffTime n) = n * 60 := by
  have hclock : (n % 1440).toNat < 1440 := by omega
  have hblank : ∀ k, blanks (' ' :: clockText k) = some (clockText k) := by
    intro k
    obtain ⟨c, cs, hc, hd⟩ : ∃ c cs, clockText k = c :: cs ∧ c.isDigit = true := by
      refine ⟨(k / 60 / 10 % 10).digitChar, _, rfl, Calendar.digitChar_digit _⟩
    have hne : (c == ' ') = false := by
      rw [beq_eq_false_iff_ne]
      rintro rfl
      cases hd
    rw [blanks, if_pos rfl, hc]
    simp [hne]
  have hparse : parseTime (kickoffDate n ++ " " ++ kickoffTime n) = some (n * 60) := by
    simp only [parseTime, kickoff_chars, Option.bind_eq_bind]
    rw [parseDate_text (Calendar.civil_valid _) ⟨h.first, h.last⟩, Option.bind_some]
    simp only [hblank, Option.bind_some, parseClock_text hclock, List.isEmpty_nil, if_true, Calendar.civil_days]
    congr 1
    omega
  have htrim : trimSpace (kickoffDate n ++ " " ++ kickoffTime n) = kickoffDate n ++ " " ++ kickoffTime n := by
    rw [← String.ofList_toList (s := kickoffDate n ++ " " ++ kickoffTime n), kickoff_chars]
    refine Text.trim_ends (fun c hc => ?_) fun c hc => ?_
    · obtain rfl : _ = c := by simpa [Calendar.dateText, Calendar.pad] using hc
      exact digit_space (Calendar.digitChar_digit _)
    · obtain rfl : _ = c := by simpa [clockText, Calendar.pad] using hc
      exact digit_space (Calendar.digitChar_digit _)
  rw [i64, htrim, hparse, Option.getD_some]

/-! ## The kickoff of every frame -/

/-- Every row of the fixture has its kickoff. -/
def Scheduled (id : String) (n : Int) (rows : List Any) : Prop :=
  ∀ row ∈ rows, s (row.get? "match_id") = id →
    s (row.get? "match_date") = kickoffDate n ∧ s (row.get? "match_time") = kickoffTime n

instance (id : String) (n : Int) (rows : List Any) : Decidable (Scheduled id n rows) :=
  inferInstanceAs (Decidable (∀ row ∈ rows, _))

/-- The frames so far are of the kickoff, and so is what is tracked. -/
structure OfKickoff (unix : Int) (v : Option MatchState × List Match) : Prop where
  frames : ∀ m ∈ v.2, m.kickoff = unix * second
  tracked : ∀ st, v.1 = some st → st.kickoff = unix

variable {n unix : Int} {c : Cycle} {id : String} {v : Option MatchState × List Match}

theorem decodeEvent_id {row : Any} {ev : LiveEvent} (h : decodeEvent row = some (id, ev)) : s (row.get? "match_id") = id := by
  unfold decodeEvent at h
  simp only at h
  split at h
  · cases h
  · simp only [Option.some.injEq, Prod.mk.injEq] at h
    exact h.1

theorem scheduled_event {rows : List Any} (hl : InLayout n) (h : Scheduled id n rows) {ev : LiveEvent}
    (hev : (parseEvents rows).get? id = some ev) : ev.kickoff = n * 60 := by
  obtain ⟨row, hin, hd⟩ := parseEvents_row hev
  obtain ⟨hdate, htime⟩ := h row hin (decodeEvent_id hd)
  rw [(decodeEvent_kickoff hd).2, hdate, htime, i64_kickoff hl]

theorem timeUnixOrZero_pos (h : 0 < unix) (now : Int) : timeUnixOrZero now unix = unix * second := by
  rw [timeUnixOrZero, if_neg (by omega)]

theorem settles_kickoff {st : MatchState} {m : Match} (h : settles c (id, st) = some m) :
    m.kickoff = timeUnixOrZero c.now st.kickoff := by
  unfold settles at h
  split at h
  · cases h
  · split at h
    · cases h
    · rw [Option.map_eq_some_iff] at h
      obtain ⟨final, -, rfl⟩ := h
      rfl

theorem liveView_kickoff (hpos : 0 < unix) (h : OfKickoff unix v) {ev : LiveEvent} (hev : ev.kickoff = unix) :
    OfKickoff unix (liveView c id v ev) := by
  have htracked : (v.1.getD (fresh ev)).kickoff = unix := by
    cases hv : v.1 with
    | none => exact hev
    | some st => exact h.tracked st hv
  unfold liveView
  split
  · exact h
  · cases quoteOf c id with
    | none => exact ⟨h.frames, fun st hst => by cases hst; exact htracked⟩
    | some mkt =>
      simp only
      split
      · exact ⟨h.frames, fun st hst => by cases hst; exact htracked⟩
      · refine ⟨fun m hm => ?_, fun st hst => by cases hst; exact htracked⟩
        rcases List.mem_append.mp hm with hm | hm
        · exact h.frames m hm
        · rw [List.mem_singleton.mp hm]
          show timeUnixOrZero c.now ev.kickoff = _
          rw [hev, timeUnixOrZero_pos hpos]

theorem settleView_kickoff (hpos : 0 < unix) (h : OfKickoff unix v) {st : MatchState} (hst : v.1 = some st) :
    OfKickoff unix (settleView c id v st) := by
  unfold settleView
  cases hs : settles c (id, st) with
  | none => exact h
  | some frame =>
    refine ⟨fun m hm => ?_, fun st' hst' => by cases hst'⟩
    simp only at hm
    split at hm
    · rcases List.mem_append.mp hm with hm | hm
      · exact h.frames m hm
      · rw [List.mem_singleton.mp hm, settles_kickoff hs, h.tracked st hst, timeUnixOrZero_pos hpos]
    · exact h.frames m hm

theorem cycleView_kickoff (hpos : 0 < unix) (h : OfKickoff unix v) (hlive : ∀ ev, c.live.get? id = some ev → ev.kickoff = unix) :
    OfKickoff unix (cycleView c id v) := by
  unfold cycleView
  cases hl : c.live.get? id with
  | some ev => exact liveView_kickoff hpos h (hlive ev hl)
  | none =>
    cases hst : v.1 with
    | none => exact h
    | some st => exact settleView_kickoff hpos h hst

/-- Every frame of a fixture is of the kickoff its rows have, and falls into the cycle of
    that second. -/
theorem scheduled_kickoff (sink : Sink LiveEvent) (id : String) {n : Int} (hn : 0 < n) (hl : InLayout n) (xs : List Feeds)
    (h : ∀ x ∈ xs, Scheduled id n x.live) :
    (∀ m ∈ framesOf (matchIDKey id) (run sink (xs.map Feeds.cycle)).log, m.kickoff = n * 60 * second) ∧
      ∀ g ∈ (groupCycles (frames (run sink (xs.map Feeds.cycle)).log)).entries,
        (∃ m ∈ g.2, m.matchID = matchIDKey id) → g.1 = (matchIDKey id, n * 60) := by
  have hrun : OfKickoff (n * 60) (view id (run sink (xs.map Feeds.cycle))) := by
    refine run_view sink id ⟨fun m hm => (List.not_mem_nil hm).elim, fun st hst => by cases hst⟩ _ ?_
    intro c hc v hv
    obtain ⟨x, hx, rfl⟩ := List.mem_map.mp hc
    exact cycleView_kickoff (by omega) hv fun ev hev => scheduled_event hl (h x hx) hev
  refine ⟨hrun.frames, ?_⟩
  intro x hx hm
  obtain ⟨k, g⟩ := x
  obtain ⟨m, hm, hid⟩ := hm
  obtain ⟨hin, hkey⟩ := groupCycles_key _ k g ((Table.mem_iff _ k g).mp hx) m hm
  have hk : m.kickoff = n * 60 * second := hrun.frames m (List.mem_filter.mpr ⟨hin, by simpa using hid⟩)
  have hsecond : n * 60 * second / second = n * 60 := Int.mul_ediv_cancel _ (by decide)
  show k = _
  rw [← hkey, groupKey, hid, hk, hsecond]

/-- Fixture 42 at a minute of its match, from 2024-05-01 18:30 on. -/
def scheduledRow (status : String) : Any :=
  .obj [("match_id", .str "42"), ("match_hometeam_name", .str "Home"), ("match_awayteam_name", .str "Away"),
    ("match_status", .str status), ("match_date", .str " 2024-05-01"), ("match_time", .str "18:30")]

def twoHalves : List Feeds :=
  [⟨1714590000 * second, Table.empty.set "42" ⟨2, 3, 4⟩, [scheduledRow "1H"], []⟩,
    ⟨1714593900 * second, Table.empty.set "42" ⟨2, 3, 5⟩, [scheduledRow "2H"], []⟩,
    ⟨1714597200 * second, Table.empty, [], [scheduledRow "FT"]⟩]

theorem a_scheduled_kickoff_stays :
    (∀ m ∈ framesOf (matchIDKey "42") (run accept (twoHalves.map Feeds.cycle)).log, m.kickoff = 28576470 * 60 * second) ∧
      ∀ g ∈ (groupCycles (frames (run accept (twoHalves.map Feeds.cycle)).log)).entries,
        (∃ m ∈ g.2, m.matchID = matchIDKey "42") → g.1 = (matchIDKey "42", 28576470 * 60) :=
  scheduled_kickoff accept "42" (by decide) ⟨by decide +kernel, by decide +kernel⟩ twoHalves (by decide +kernel)

end CasuyaLive.Ingest.ApiFootball
