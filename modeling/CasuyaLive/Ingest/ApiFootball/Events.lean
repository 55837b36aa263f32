/-
  CasuyaLive.Ingest.ApiFootball.Events — the legacy event rows and their reading
  (data-ingestion-go, internal/apifootball/poller.go: `decodeEvent`, `parseEvents` and the
  helpers for stringly typed payloads).

  A row is a value as `json.Unmarshal` leaves it in an `any`. Numbers are exact rationals;
  a text that names an infinity or NaN reads as no number. The kickoff of an event is what
  the date and the match time of its row read as together, and the match time is also its
  running clock: a text without a colon is no time of day (`i64_no_colon`).
-/

import CasuyaLive.Lib.Json
import CasuyaLive.Lib.Numeral
import CasuyaLive.Ingest.ApiFootball.Poller

namespace CasuyaLive.Ingest.ApiFootball

open CasuyaLive.Lib CasuyaLive.Lib.Text CasuyaLive.Ingest.Stream

/-- What Go's `any` holds after decoding. -/
abbrev Any := Json ℚ String

/-! ## Helpers for stringly typed payloads -/

/-- The trimmed text; "" for anything else. -/
def s : Option Any → String
  | some (.str t) => trimSpace t
  | _ => ""

/-- The number that `ParseFloat` reads without an error. -/
def readNumber (t : String) : Option ℚ := if (parseFloat t).2 && (parseFloat t).1.isFinite then readFloat t else none

def f : Option Any → ℚ
  | some (.num q) => q
  | some (.str t) => (readNumber (trimSpace t)).getD 0
  | _ => 0

def num (v : Option Any) : Int := if 0 < f v then (Float64.nearest (f v)).toInt else 0

/-- The number a percentage text such as "58%" names. -/
def percentage (t : String) : Option ℚ := readNumber (trimSpace (String.ofList (t.toList.filter (· != '%'))))

def percent (v : Option Any) : ℚ := ((percentage (s v)).map (· / 100)).getD 0

def firstNonEmpty (vals : List String) : String := (vals.find? (· != "")).getD ""

/-- `strings.ToLower`, as far as an ASCII text can tell. -/
def toLower (t : String) : String :=
  String.ofList (t.toList.map fun c => if c = '\u212A' then 'k' else if c = '\u0130' then 'i' else lowerChar c)

/-! ## The layout "2006-01-02 15:04" -/

def expect (c : Char) : List Char → Option (List Char)
  | d :: cs => if d = c then some cs else none
  | [] => none

/-- Exactly `n` digits. -/
def digits (n : Nat) (cs : List Char) : Option (Nat × List Char) :=
  if (cs.take n).length = n ∧ (cs.take n).all Char.isDigit then some (decimal (cs.take n), cs.drop n) else none

/-- One digit or two. -/
def shortNumber (cs : List Char) : Option (Nat × List Char) := (digits 2 cs).orElse fun _ => digits 1 cs

/-- A blank of the layout: one or more of the text, or its end. -/
def blanks : List Char → Option (List Char)
  | [] => some []
  | c :: cs => if c = ' ' then some (cs.dropWhile (· == ' ')) else none

def isLeap (y : Nat) : Bool := y % 4 == 0 && (y % 100 != 0 || y % 400 == 0)

def daysIn (y m : Nat) : Nat := if m = 2 then (if isLeap y then 29 else 28) else if m ∈ [4, 6, 9, 11] then 30 else 31

/-- Days from 1970-01-01 to a date, by years that begin in March. -/
def daysSinceEpoch (y m d : Nat) : Int :=
  let year : Int := if m ≤ 2 then (y : Int) - 1 else y
  let era := year / 400
  let ofEra := year - era * 400
  let ofYear : Int := (153 * ((m + 9) % 12 : Nat) + 2) / 5 + d - 1
  era * 146097 + (ofEra * 365 + ofEra / 4 - ofEra / 100 + ofYear) - 719468

def parseDate (cs : List Char) : Option (Int × List Char) := do
  let (y, cs) ← digits 4 cs
  let cs ← expect '-' cs
  let (m, cs) ← digits 2 cs
  let cs ← expect '-' cs
  let (d, cs) ← digits 2 cs
  if 1 ≤ m ∧ m ≤ 12 ∧ 1 ≤ d ∧ d ≤ daysIn y m then some (daysSinceEpoch y m d, cs) else none

def parseClock (cs : List Char) : Option (Nat × List Char) := do
  let (hour, cs) ← shortNumber cs
  let cs ← expect ':' cs
  let (min, cs) ← digits 2 cs
  if hour < 24 ∧ min < 60 then some (hour * 60 + min, cs) else none

/-- Seconds since the epoch of a text in the layout. -/
def parseTime (t : String) : Option Int := do
  let (days, cs) ← parseDate t.toList
  let cs ← blanks cs
  let (minutes, rest) ← parseClock cs
  if rest.isEmpty then some (days * 86400 + minutes * 60) else none

def i64 (v : String) : Int := (parseTime (trimSpace v)).getD 0

theorem expect_mem {c : Char} {cs rest : List Char} (h : expect c cs = some rest) : c ∈ cs ∧ rest ⊆ cs := by
  cases cs with
  | nil => cases h
  | cons d cs =>
    simp only [expect] at h
    split at h
    · rename_i hd
      cases h
      rw [hd]
      exact ⟨List.mem_cons_self, List.subset_cons_self _ _⟩
    · cases h

theorem digits_subset {n k : Nat} {cs rest : List Char} (h : digits n cs = some (k, rest)) : rest ⊆ cs := by
  unfold digits at h
  split at h
  · cases h
    exact List.drop_subset n cs
  · cases h

theorem shortNumber_subset {k : Nat} {cs rest : List Char} (h : shortNumber cs = some (k, rest)) : rest ⊆ cs := by
  unfold shortNumber at h
  cases h2 : digits 2 cs with
  | some x =>
    rw [h2] at h
    cases h
    exact digits_subset h2
  | none =>
    rw [h2] at h
    exact digits_subset h

theorem blanks_subset {cs rest : List Char} (h : blanks cs = some rest) : rest ⊆ cs := by
  cases cs with
  | nil =>
    cases h
    exact List.Subset.refl _
  | cons c cs =>
    simp only [blanks] at h
    split at h
    · cases h
      exact List.Subset.trans (List.dropWhile_subset _) (List.subset_cons_self _ _)
    · cases h

theorem parseDate_subset {days : Int} {cs rest : List Char} (h : parseDate cs = some (days, rest)) : rest ⊆ cs := by
  unfold parseDate at h
  simp only [Option.bind_eq_bind, Option.bind_eq_some_iff, Prod.exists] at h
  obtain ⟨y, r1, h1, r2, h2, m, r3, h3, r4, h4, d, r5, h5, hif⟩ := h
  split at hif
  · cases hif
    have hyear : r2 ⊆ cs := List.Subset.trans (expect_mem h2).2 (digits_subset h1)
    have hmonth : r4 ⊆ r2 := List.Subset.trans (expect_mem h4).2 (digits_subset h3)
    have hday : rest ⊆ r4 := digits_subset h5
    exact List.Subset.trans hday (List.Subset.trans hmonth hyear)
  · cases hif

/-- A text in the layout has a colon. -/
theorem parseTime_colon {t : String} {x : Int} (h : parseTime t = some x) : ':' ∈ t.toList := by
  unfold parseTime at h
  simp only [Option.bind_eq_bind, Option.bind_eq_some_iff, Prod.exists] at h
  obtain ⟨days, r1, hdate, r2, hblank, minutes, r3, hclock, -⟩ := h
  unfold parseClock at hclock
  simp only [Option.bind_eq_bind, Option.bind_eq_some_iff, Prod.exists] at hclock
  obtain ⟨hour, q1, hhour, q2, hcolon, -⟩ := hclock
  exact parseDate_subset hdate (blanks_subset hblank (shortNumber_subset hhour (expect_mem hcolon).1))

example : parseTime "1970-01-02 00:01" = some 86460 := by decide +kernel
example : parseTime "2024-02-29 9:30" = some 1709199000 := by decide +kernel
example : parseTime "2024-05-01 45" = none := by decide +kernel

theorem trimSpace_subset (t : String) : (trimSpace t).toList ⊆ t.toList := by
  intro c hc
  rw [trimSpace, trim, String.toList_ofList, List.mem_reverse] at hc
  have hin := List.dropWhile_subset _ hc
  rw [List.mem_reverse] at hin
  exact List.dropWhile_subset _ hin

/-- A running minute is no time of day. -/
theorem i64_no_colon {date time : String} (hd : ':' ∉ date.toList) (ht : ':' ∉ time.toList) :
    i64 (date ++ " " ++ time) = 0 := by
  cases h : parseTime (trimSpace (date ++ " " ++ time)) with
  | none => rw [i64, h, Option.getD_none]
  | some x =>
    have hin := trimSpace_subset _ (parseTime_colon h)
    simp only [String.toList_append, List.mem_append] at hin
    rcases hin with (hin | hin) | hin
    · exact absurd hin hd
    · exact absurd hin (by decide)
    · exact absurd hin ht

/-! ## Rows -/

/-- One row of the statistics, by what its type contains. -/
def onStatistic (e : LiveEvent) (row : Any) : LiveEvent :=
  match row with
  | .obj _ =>
    let typ := toLower (s (row.get? "type"))
    if contains typ "possession" then { e with possessionHome := percent (row.get? "home") }
    else if contains typ "shots total" || contains typ "total shots" then
      { e with shots := num (row.get? "home") + num (row.get? "away") }
    else if contains typ "shots on" && contains typ "goal" then
      { e with shotsOnTarget := num (row.get? "home") + num (row.get? "away") }
    else if contains typ "dangerous attack" then
      { e with dangerousAttacks := num (row.get? "home") + num (row.get? "away") }
    else e
  | _ => e

def statistics (row : Any) : List Any :=
  match row.get? "statistics" with
  | some (.arr rows) => rows
  | _ => []

/-- The event before its statistics. Closing odds are never read. -/
def bareEvent (row : Any) : LiveEvent :=
  { home := s (row.get? "match_hometeam_name")
    away := s (row.get? "match_awayteam_name")
    league := firstNonEmpty [s (row.get? "league_name"), s (row.get? "country_name")]
    status := toUpper (s (row.get? "match_status"))
    matchTime := s (row.get? "match_time")
    homeScore := num (row.get? "match_hometeam_score")
    awayScore := num (row.get? "match_awayteam_score")
    shots := 0
    shotsOnTarget := 0
    dangerousAttacks := 0
    possessionHome := 0
    closed := ⟨0, 0, 0⟩
    hasClosedOdds := false
    kickoff := i64 (s (row.get? "match_date") ++ " " ++ s (row.get? "match_time")) }

/-- The event of a row with its id, `none` when the id or a team is missing. -/
def decodeEvent (row : Any) : Option (String × LiveEvent) :=
  let id := s (row.get? "match_id")
  let e := bareEvent row
  if e.home = "" ∨ e.away = "" ∨ id = "" then none else some (id, (statistics row).foldl onStatistic e)

/-- The rows of a payload by match id; the last one of an id stays. -/
def parseEvents (rows : List Any) : Table String LiveEvent :=
  rows.foldl (fun out row =>
    match decodeEvent row with
    | some (id, ev) => out.set id ev
    | none => out) Table.empty

/-- What a cycle fetches. A feed that failed has no rows. -/
structure Feeds where
  now : Int
  odds : Table String OddsSet
  live : List Any
  day : List Any

def Feeds.cycle (x : Feeds) : Cycle := ⟨x.now, x.odds, parseEvents x.live, parseEvents x.day⟩

/-! ## What an event keeps of its row -/

/-- What every update of a statistic keeps, a row of statistics keeps. -/
theorem onStatistic_cases {P : LiveEvent → Prop} {e : LiveEvent} (row : Any) (hnone : P e)
    (hposs : P { e with possessionHome := percent (row.get? "home") })
    (hshots : P { e with shots := num (row.get? "home") + num (row.get? "away") })
    (hon : P { e with shotsOnTarget := num (row.get? "home") + num (row.get? "away") })
    (hattacks : P { e with dangerousAttacks := num (row.get? "home") + num (row.get? "away") }) :
    P (onStatistic e row) := by
  cases row with
  | obj fields =>
    exact iteInduction (fun _ => hposs) fun _ => iteInduction (fun _ => hshots) fun _ =>
      iteInduction (fun _ => hon) fun _ => iteInduction (fun _ => hattacks) fun _ => hnone
  | _ => exact hnone

theorem onStatistic_keeps (e : LiveEvent) (row : Any) :
    (onStatistic e row).matchTime = e.matchTime ∧ (onStatistic e row).kickoff = e.kickoff :=
  onStatistic_cases (P := fun e' => e'.matchTime = e.matchTime ∧ e'.kickoff = e.kickoff) row
    ⟨rfl, rfl⟩ ⟨rfl, rfl⟩ ⟨rfl, rfl⟩ ⟨rfl, rfl⟩ ⟨rfl, rfl⟩

theorem onStatistics_keeps (rows : List Any) (e : LiveEvent) :
    (rows.foldl onStatistic e).matchTime = e.matchTime ∧ (rows.foldl onStatistic e).kickoff = e.kickoff := by
  induction rows generalizing e with
  | nil => exact ⟨rfl, rfl⟩
  | cons row rows ih =>
    obtain ⟨htime, hkick⟩ := ih (onStatistic e row)
    obtain ⟨htime', hkick'⟩ := onStatistic_keeps e row
    exact ⟨htime.trans htime', hkick.trans hkick'⟩

/-- The kickoff is read from the date and the match time of the row. -/
theorem decodeEvent_kickoff {row : Any} {id : String} {ev : LiveEvent} (h : decodeEvent row = some (id, ev)) :
    ev.matchTime = s (row.get? "match_time") ∧
      ev.kickoff = i64 (s (row.get? "match_date") ++ " " ++ s (row.get? "match_time")) := by
  unfold decodeEvent at h
  simp only at h
  split at h
  · cases h
  · simp only [Option.some.injEq, Prod.mk.injEq] at h
    obtain ⟨-, rfl⟩ := h
    obtain ⟨htime, hkick⟩ := onStatistics_keeps (statistics row) (bareEvent row)
    rw [htime, hkick]
    simp only [bareEvent, and_self]

theorem parseEvents_row {rows : List Any} {id : String} {ev : LiveEvent} (h : (parseEvents rows).get? id = some ev) :
    ∃ row ∈ rows, decodeEvent row = some (id, ev) := by
  have hall : ∀ (rows done : List Any) (out : Table String LiveEvent),
      (∀ i e, out.get? i = some e → ∃ row ∈ done, decodeEvent row = some (i, e)) →
      ∀ i e, (rows.foldl (fun out row =>
        match decodeEvent row with
        | some (id, ev) => out.set id ev
        | none => out) out).get? i = some e → ∃ row ∈ done ++ rows, decodeEvent row = some (i, e) := by
    intro rows
    induction rows with
    | nil => intro done out hout; simpa using hout
    | cons row rows ih =>
      intro done out hout
      have hstep := ih (done ++ [row]) (match decodeEvent row with
        | some (id, ev) => out.set id ev
        | none => out) ?_
      · simpa using hstep
      · intro i e he
        cases hd : decodeEvent row with
        | none =>
          rw [hd] at he
          obtain ⟨r, hr, hrow⟩ := hout i e he
          exact ⟨r, List.mem_append_left _ hr, hrow⟩
        | some x =>
          obtain ⟨k, e'⟩ := x
          rw [hd] at he
          simp only [Table.get?_set] at he
          split at he
          · rename_i hk
            cases he
            exact ⟨row, List.mem_append_right _ (List.mem_singleton_self row), by rw [hd, hk]⟩
          · obtain ⟨r, hr, hrow⟩ := hout i e he
            exact ⟨r, List.mem_append_left _ hr, hrow⟩
  have hnone := hall rows [] Table.empty (by simp) id ev h
  simpa using hnone

/-- A row whose date and match time have no colon gives no kickoff. -/
theorem kickoff_running {rows : List Any} {id : String} {ev : LiveEvent} (h : (parseEvents rows).get? id = some ev)
    (hrows : ∀ row ∈ rows, ':' ∉ (s (row.get? "match_date")).toList ∧ ':' ∉ (s (row.get? "match_time")).toList) :
    ev.kickoff = 0 := by
  obtain ⟨row, hin, hd⟩ := parseEvents_row h
  obtain ⟨hdate, htime⟩ := hrows row hin
  rw [(decodeEvent_kickoff hd).2, i64_no_colon hdate htime]

end CasuyaLive.Ingest.ApiFootball
