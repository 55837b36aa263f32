/-
  CasuyaLive.Lib.Calendar — the Gregorian calendar and the texts of instants.

  A date is counted in years that begin in March, so that a leap day is the last of its
  year. `civil_days`, `civil_valid`: the date of a day is in the calendar, and counts to that
  day. `rfc3339` is an instant, in nanoseconds, as Go prints it in UTC: a fraction of the
  second without its last zeros, and none when it is zero. `fromIso` is how Python reads such
  a text, down to the microsecond. `fromIso_rfc3339`: it reads what was printed.
  `timeUnix` is the instant that a count of seconds becomes in Go.
-/

import CasuyaLive.Lib.Text
import Mathlib.Tactic.IntervalCases

namespace CasuyaLive.Lib.Calendar

structure Date where
  year : Int
  month : Int
  day : Int
  deriving DecidableEq

def isLeap (y : Int) : Bool := y % 4 = 0 && (y % 100 ≠ 0 || y % 400 = 0)

def daysIn (y m : Int) : Int := if m = 2 then (if isLeap y then 29 else 28) else if m = 4 ∨ m = 6 ∨ m = 9 ∨ m = 11 then 30 else 31

def Date.valid (x : Date) : Bool := 1 ≤ x.month && x.month ≤ 12 && 1 ≤ x.day && x.day ≤ daysIn x.year x.month

/-! ## Years from March on -/

structure YearDay where
  year : Int
  day : Int

/-- Days since the first of March of the year 0. -/
def YearDay.days (y : YearDay) : Int := 365 * y.year + y.year / 4 - y.year / 100 + y.year / 400 + y.day

def yearDay (n : Int) : YearDay :=
  let d := n % 146097
  let n100 := min (d / 36524) 3
  let d1 := d - 36524 * n100
  let n4 := d1 / 1461
  let d4 := d1 - 1461 * n4
  let n1 := min (d4 / 365) 3
  ⟨400 * (n / 146097) + 100 * n100 + 4 * n4 + n1, d4 - 365 * n1⟩

/-- Eras, centuries, leap cycles and years, and the day of the last one. -/
theorem yearDay_parts (n : Int) : ∃ k c q r t, n = 146097 * k + 36524 * c + 1461 * q + 365 * r + t ∧
    yearDay n = ⟨400 * k + 100 * c + 4 * q + r, t⟩ ∧ (0 ≤ c ∧ c ≤ 3) ∧ (0 ≤ q ∧ q ≤ 24) ∧ (0 ≤ r ∧ r ≤ 3) ∧
    (0 ≤ t ∧ t ≤ 365) ∧ (t = 365 → r = 3 ∧ (q = 24 → c = 3)) := by
  have hk : 0 ≤ n % 146097 ∧ n % 146097 < 146097 := by omega
  have hn : n = 146097 * (n / 146097) + n % 146097 := by omega
  have hc : ∃ c, c = min (n % 146097 / 36524) 3 ∧ 0 ≤ c ∧ c ≤ 3 ∧ 0 ≤ n % 146097 - 36524 * c ∧
      n % 146097 - 36524 * c ≤ 36524 ∧ (n % 146097 - 36524 * c = 36524 → c = 3) := ⟨_, rfl, by omega⟩
  obtain ⟨c, hc, hc0, hc3, hd0, hd1, hd2⟩ := hc
  generalize hd : n % 146097 - 36524 * c = d at *
  have hq : 0 ≤ d / 1461 ∧ d / 1461 ≤ 24 ∧ 0 ≤ d - 1461 * (d / 1461) ∧ d - 1461 * (d / 1461) ≤ 1460 ∧
      (d / 1461 = 24 → d - 1461 * (d / 1461) = 1460 → c = 3) := by omega
  obtain ⟨hq0, hq1, he0, he1, he2⟩ := hq
  generalize hqe : d / 1461 = q at *
  generalize he : d - 1461 * q = e at *
  refine ⟨n / 146097, c, q, min (e / 365) 3, e - 365 * min (e / 365) 3, by omega, ?_, ⟨hc0, hc3⟩, ⟨hq0, hq1⟩, by omega,
    by omega, by omega⟩
  simp only [yearDay, ← hc, hd, hqe, he]

theorem yearDay_days (n : Int) : (yearDay n).days = n := by
  obtain ⟨k, c, q, r, t, hn, hy, hc, hq, hr, -, -⟩ := yearDay_parts n
  have h4 : (400 * k + 100 * c + 4 * q + r) / 4 = 100 * k + 25 * c + q := by omega
  have h100 : (400 * k + 100 * c + 4 * q + r) / 100 = 4 * k + c := by omega
  have h400 : (400 * k + 100 * c + 4 * q + r) / 400 = k := by omega
  rw [hy]
  simp only [YearDay.days, h4, h100, h400]
  omega

/-- Only a leap year has a day 365, which is its leap day. -/
theorem yearDay_day (n : Int) : 0 ≤ (yearDay n).day ∧ (yearDay n).day ≤ 365 ∧
    ((yearDay n).day = 365 → isLeap ((yearDay n).year + 1) = true) := by
  obtain ⟨k, c, q, r, t, -, hy, hc, hq, hr, ht, hleap⟩ := yearDay_parts n
  rw [hy]
  refine ⟨ht.1, ht.2, fun h => ?_⟩
  obtain ⟨hr3, hq24⟩ := hleap h
  simp only [isLeap, Bool.and_eq_true, Bool.or_eq_true, decide_eq_true_eq]
  omega

/-! ## Dates -/

/-- Months of 153 days in five from March on. -/
def dateOf (y : YearDay) : Date :=
  let mp := (5 * y.day + 2) / 153
  ⟨if mp < 10 then y.year else y.year + 1, if mp < 10 then mp + 3 else mp - 9, y.day - (153 * mp + 2) / 5 + 1⟩

/-- The date of a day counted from 1970-01-01. -/
def civil (n : Int) : Date := dateOf (yearDay (n + 719468))

def Date.days (x : Date) : Int :=
  let year := if x.month ≤ 2 then x.year - 1 else x.year
  let mp := if x.month ≤ 2 then x.month + 9 else x.month - 3
  YearDay.days ⟨year, (153 * mp + 2) / 5 + x.day - 1⟩ - 719468

theorem dateOf_days {y : YearDay} (h : 0 ≤ y.day ∧ y.day ≤ 365) : (dateOf y).days = y.days - 719468 := by
  obtain ⟨year, day⟩ := y
  simp only [dateOf, Date.days, YearDay.days] at *
  by_cases hmp : (5 * day + 2) / 153 < 10
  · simp only [if_pos hmp]
    rw [if_neg (by omega), if_neg (by omega)]
    omega
  · simp only [if_neg hmp]
    rw [if_pos (by omega), if_pos (by omega)]
    omega

theorem civil_days (n : Int) : (civil n).days = n := by
  obtain ⟨h0, h1, -⟩ := yearDay_day (n + 719468)
  have h := dateOf_days ⟨h0, h1⟩
  rw [yearDay_days] at h
  rw [civil, h]
  omega

theorem dateOf_month {y : YearDay} (h : 0 ≤ y.day ∧ y.day ≤ 365) : 1 ≤ (dateOf y).month ∧ (dateOf y).month ≤ 12 := by
  simp only [dateOf]
  split <;> omega

theorem dateOf_day {y : YearDay} (h : 0 ≤ y.day ∧ y.day ≤ 365) (hleap : y.day = 365 → isLeap (y.year + 1) = true) :
    1 ≤ (dateOf y).day ∧ (dateOf y).day ≤ daysIn (dateOf y).year (dateOf y).month := by
  obtain ⟨year, day⟩ := y
  simp only [dateOf, daysIn] at *
  refine ⟨by omega, ?_⟩
  by_cases hd : day = 365
  · subst hd
    simp [hleap rfl]
  · split_ifs <;> omega

theorem civil_valid (n : Int) : (civil n).valid = true := by
  obtain ⟨h0, h1, hleap⟩ := yearDay_day (n + 719468)
  have hm := dateOf_month ⟨h0, h1⟩
  have hd := dateOf_day ⟨h0, h1⟩ hleap
  simp only [Date.valid, Bool.and_eq_true]
  simp only [decide_eq_true_eq]
  exact ⟨⟨⟨hm.1, hm.2⟩, hd.1⟩, hd.2⟩

/-- The first day of the year and the last one. -/
theorem civil_year (n : Int) : (Date.mk (civil n).year 1 1).days ≤ n ∧ n ≤ (Date.mk (civil n).year 12 31).days := by
  have hdays := civil_days n
  have hvalid := civil_valid n
  generalize civil n = x at *
  obtain ⟨y, m, d⟩ := x
  simp only [Date.valid, Bool.and_eq_true] at hvalid
  simp only [decide_eq_true_eq] at hvalid
  obtain ⟨⟨⟨hm1, hm2⟩, hd1⟩, hd2⟩ := hvalid
  have hd3 : d ≤ 31 := by
    refine Int.le_trans hd2 ?_
    unfold daysIn
    split_ifs <;> omega
  simp only [Date.days, YearDay.days] at *
  rw [if_pos (by omega), if_pos (by omega), if_neg (by omega), if_neg (by omega)]
  by_cases hm : m ≤ 2
  · rw [if_pos hm, if_pos hm] at hdays
    omega
  · rw [if_neg hm, if_neg hm] at hdays
    omega

/-! ## Numbers of fixed width -/

def pad : Nat → Nat → List Char
  | 0, _ => []
  | w + 1, n => pad w (n / 10) ++ [(n % 10).digitChar]

/-- Exactly `w` digits. -/
def fixed (w : Nat) (cs : List Char) : Option (Nat × List Char) :=
  if (cs.take w).length = w ∧ (cs.take w).all Char.isDigit then some (Text.decimal (cs.take w), cs.drop w) else none

def expect (c : Char) : List Char → Option (List Char)
  | [] => none
  | d :: cs => if d = c then some cs else none

theorem pad_length (w n : Nat) : (pad w n).length = w := by
  induction w generalizing n with
  | zero => rfl
  | succ w ih => rw [pad, List.length_append, ih, List.length_singleton]

theorem digitChar_digit (n : Nat) : ((n % 10).digitChar).isDigit = true := by
  have h : n % 10 < 10 := Nat.mod_lt n (by decide)
  generalize n % 10 = k at h
  interval_cases k <;> decide

theorem pad_digit {w n : Nat} {c : Char} (h : c ∈ pad w n) : c.isDigit = true := by
  induction w generalizing n with
  | zero => cases h
  | succ w ih =>
    rw [pad, List.mem_append, List.mem_singleton] at h
    rcases h with h | rfl
    · exact ih h
    · exact digitChar_digit n

theorem decimal_concat (ds : List Char) (c : Char) : Text.decimal (ds ++ [c]) = 10 * Text.decimal ds + (c.toNat - 48) := by
  rw [Text.decimal, List.foldl_append]
  rfl

theorem digitChar_value (n : Nat) : ((n % 10).digitChar).toNat - 48 = n % 10 := by
  have h : n % 10 < 10 := Nat.mod_lt n (by decide)
  generalize n % 10 = k at h
  interval_cases k <;> decide

theorem decimal_pad (w n : Nat) : Text.decimal (pad w n) = n % 10 ^ w := by
  induction w generalizing n with
  | zero =>
    rw [pow_zero, Nat.mod_one]
    rfl
  | succ w ih =>
    rw [pad, decimal_concat, ih, digitChar_value, Nat.pow_succ, Nat.mul_comm (10 ^ w) 10, Nat.mod_mul]
    omega

theorem pad_add (v w n : Nat) : pad (v + w) n = pad v (n / 10 ^ w) ++ pad w n := by
  induction w generalizing n with
  | zero => rw [Nat.add_zero, pow_zero, Nat.div_one, pad, List.append_nil]
  | succ w ih =>
    rw [← Nat.add_assoc, pad, ih, pad, List.append_assoc, Nat.div_div_eq_div_mul, Nat.pow_succ, Nat.mul_comm 10]

theorem fixed_pad {w n : Nat} (h : n < 10 ^ w) (cs : List Char) : fixed w (pad w n ++ cs) = some (n, cs) := by
  have htake : (pad w n ++ cs).take w = pad w n := List.take_left' (pad_length w n)
  have hdrop : (pad w n ++ cs).drop w = cs := List.drop_left' (pad_length w n)
  have hdigits : (pad w n).all Char.isDigit = true := List.all_eq_true.mpr fun c hc => pad_digit hc
  rw [fixed, htake, hdrop, if_pos ⟨pad_length w n, hdigits⟩, decimal_pad, Nat.mod_eq_of_lt h]

theorem expect_cons (c : Char) (cs : List Char) : expect c (c :: cs) = some cs := by
  rw [expect, if_pos rfl]

/-! ## Texts of instants -/

def dateText (x : Date) : List Char := pad 4 x.year.toNat ++ '-' :: (pad 2 x.month.toNat ++ '-' :: pad 2 x.day.toNat)

/-- The time of day of a second. -/
def timeText (s : Nat) : List Char := pad 2 (s / 3600) ++ ':' :: (pad 2 (s / 60 % 60) ++ ':' :: pad 2 (s % 60))

def trimZeros (ds : List Char) : List Char := (ds.reverse.dropWhile (· == '0')).reverse

def fractionText (ns : Nat) : List Char := if (trimZeros (pad 9 ns)).isEmpty then [] else '.' :: trimZeros (pad 9 ns)

/-- An instant in UTC, without its zone. -/
def stamp (t : Int) : List Char :=
  let s := t / 1000000000
  dateText (civil (s / 86400)) ++ 'T' :: (timeText (s % 86400).toNat ++ fractionText (t % 1000000000).toNat)

/-- `time.RFC3339Nano`, in UTC. -/
def rfc3339 (t : Int) : List Char := stamp t ++ ['Z']

def readDate (cs : List Char) : Option (Date × List Char) := do
  let (y, cs) ← fixed 4 cs
  let cs ← expect '-' cs
  let (m, cs) ← fixed 2 cs
  let cs ← expect '-' cs
  let (d, cs) ← fixed 2 cs
  if (Date.mk y m d).valid then some (⟨y, m, d⟩, cs) else none

def readTime (cs : List Char) : Option (Nat × List Char) := do
  let (h, cs) ← fixed 2 cs
  let cs ← expect ':' cs
  let (m, cs) ← fixed 2 cs
  let cs ← expect ':' cs
  let (s, cs) ← fixed 2 cs
  if h < 24 ∧ m < 60 ∧ s < 60 then some (h * 3600 + m * 60 + s, cs) else none

/-- The microseconds of a fraction's digits; those past the sixth do not count. -/
def micros (ds : List Char) : Nat := Text.decimal ((ds ++ List.replicate 6 '0').take 6)

def readFraction : List Char → Option (Nat × List Char)
  | '.' :: cs =>
    let ds := cs.takeWhile Char.isDigit
    if ds.isEmpty then none else some (micros ds, cs.dropWhile Char.isDigit)
  | cs => some (0, cs)

/-- The offset in minutes. -/
def readZone (cs : List Char) : Option Int :=
  let hours (cs : List Char) : Option Int := do
    let (h, cs) ← fixed 2 cs
    let cs ← expect ':' cs
    let (m, cs) ← fixed 2 cs
    if cs.isEmpty ∧ h < 24 ∧ m < 60 then some (h * 60 + m) else none
  match cs with
  | ['Z'] => some 0
  | '+' :: cs => hours cs
  | '-' :: cs => (hours cs).map fun z => -z
  | _ => none

/-- `datetime.fromisoformat` of a text with date, time and zone, as the microsecond since
    1970; its years begin with 1. -/
def fromIso (cs : List Char) : Option Int := do
  let (date, cs) ← readDate cs
  let (s, cs) ← readTime cs.tail
  let (us, cs) ← readFraction cs
  let zone ← readZone cs
  if date.year < 1 then none
  else some ((date.days * 86400 + s - zone * 60) * 1000000 + us)

theorem readDate_text {x : Date} (hv : x.valid = true) (hy : 0 ≤ x.year ∧ x.year < 10000) (cs : List Char) :
    readDate (dateText x ++ cs) = some (x, cs) := by
  obtain ⟨y, m, d⟩ := x
  have hbounds := hv
  simp only [Date.valid, Bool.and_eq_true] at hbounds
  simp only [decide_eq_true_eq] at hbounds
  obtain ⟨⟨⟨hm1, hm2⟩, hd1⟩, hd2⟩ := hbounds
  have hd3 : d ≤ 31 := by
    refine Int.le_trans hd2 ?_
    unfold daysIn
    split_ifs <;> omega
  obtain ⟨hy0, hy1⟩ := hy
  simp only at hy0 hy1
  obtain ⟨y, rfl⟩ := Int.eq_ofNat_of_zero_le hy0
  obtain ⟨m, rfl⟩ := Int.eq_ofNat_of_zero_le (Int.le_trans (by decide) hm1)
  obtain ⟨d, rfl⟩ := Int.eq_ofNat_of_zero_le (Int.le_trans (by decide) hd1)
  simp only [readDate, dateText, Int.toNat_natCast, List.append_assoc, List.cons_append, Option.bind_eq_bind]
  rw [fixed_pad (by omega), Option.bind_some]
  simp only [expect_cons, Option.bind_some]
  rw [fixed_pad (by omega), Option.bind_some]
  simp only [expect_cons, Option.bind_some]
  rw [fixed_pad (by omega), Option.bind_some]
  simp only [hv, if_true]

theorem readTime_text {s : Nat} (h : s < 86400) (cs : List Char) : readTime (timeText s ++ cs) = some (s, cs) := by
  simp only [readTime, timeText, List.append_assoc, List.cons_append, Option.bind_eq_bind]
  rw [fixed_pad (by omega), Option.bind_some]
  simp only [expect_cons, Option.bind_some]
  rw [fixed_pad (by omega), Option.bind_some]
  simp only [expect_cons, Option.bind_some]
  rw [fixed_pad (by omega), Option.bind_some]
  simp only
  rw [if_pos (by omega)]
  congr 2
  omega

/-- Zeros at the end make no difference to the microseconds. -/
theorem micros_trimZeros (ds : List Char) : micros (trimZeros ds) = micros ds := by
  have hsplit : ∃ k, ds = trimZeros ds ++ List.replicate k '0' := by
    have hdrop := List.takeWhile_append_dropWhile (p := (· == '0')) (l := ds.reverse)
    have hzero : ∀ c ∈ ds.reverse.takeWhile (· == '0'), c = '0' := fun c hc => by
      simpa using List.mem_takeWhile_imp hc
    refine ⟨(ds.reverse.takeWhile (· == '0')).length, ?_⟩
    have hrev := congrArg List.reverse hdrop
    rw [List.reverse_append, List.reverse_reverse] at hrev
    rw [List.eq_replicate_of_mem hzero, List.reverse_replicate] at hrev
    exact hrev.symm
  obtain ⟨k, hk⟩ := hsplit
  have hsame : ∀ l : List Char, (l ++ List.replicate k '0' ++ List.replicate 6 '0').take 6 = (l ++ List.replicate 6 '0').take 6 := by
    intro l
    rw [List.append_assoc, List.replicate_append_replicate, List.take_append, List.take_append, List.take_replicate,
      List.take_replicate]
    congr 2
    omega
  unfold micros
  conv_rhs => rw [hk]
  rw [hsame]

theorem micros_pad {ns : Nat} (h : ns < 1000000000) : micros (pad 9 ns) = ns / 1000 := by
  have hpad : pad 9 ns = pad 6 (ns / 10 ^ 3) ++ pad 3 ns := pad_add 6 3 ns
  rw [micros, hpad, List.append_assoc, List.take_left' (pad_length 6 _), decimal_pad]
  omega

theorem readFraction_text {ns : Nat} (h : ns < 1000000000) {c : Char} (hc : c.isDigit = false ∧ c ≠ '.') (cs : List Char) :
    readFraction (fractionText ns ++ c :: cs) = some (ns / 1000, c :: cs) := by
  have hmicros : micros (trimZeros (pad 9 ns)) = ns / 1000 := by rw [micros_trimZeros, micros_pad h]
  unfold fractionText
  split
  · rename_i hempty
    have hzero : ns / 1000 = 0 := by
      rw [← hmicros, List.isEmpty_iff.mp hempty]
      decide
    rw [List.nil_append, hzero, readFraction]
    intro cs' he
    exact hc.2 (List.cons.inj he).1
  · rename_i hsome
    have hdigits : ∀ d ∈ trimZeros (pad 9 ns), d.isDigit = true := by
      intro d hd
      have hmem : d ∈ pad 9 ns := List.mem_reverse.mp ((List.dropWhile_sublist _).subset (List.mem_reverse.mp hd))
      exact pad_digit hmem
    have htake : (trimZeros (pad 9 ns) ++ c :: cs).takeWhile Char.isDigit = trimZeros (pad 9 ns) := by
      rw [List.takeWhile_append_of_pos hdigits, List.takeWhile_cons_of_neg (by simp [hc.1]), List.append_nil]
    have hdrop : (trimZeros (pad 9 ns) ++ c :: cs).dropWhile Char.isDigit = c :: cs := by
      rw [List.dropWhile_append_of_pos hdigits, List.dropWhile_cons_of_neg (by simp [hc.1])]
    simp only [List.cons_append, readFraction, htake, hdrop, hmicros]
    rw [if_neg hsome]

/-- What Go prints of an instant from the year 1 on, Python reads, to the microsecond, with
    any name for the zone that it reads as UTC. -/
theorem fromIso_stamp {t : Int} (hlo : -62135596800000000000 ≤ t) (hhi : t < 253402300800000000000) {c : Char} {zone : List Char}
    (hc : c.isDigit = false ∧ c ≠ '.') (hz : readZone (c :: zone) = some 0) : fromIso (stamp t ++ c :: zone) = some (t / 1000) := by
  have hyear := civil_year (t / 1000000000 / 86400)
  have hvalid := civil_valid (t / 1000000000 / 86400)
  have hdays := civil_days (t / 1000000000 / 86400)
  simp only [fromIso, stamp, Option.bind_eq_bind, List.append_assoc, List.cons_append]
  generalize civil (t / 1000000000 / 86400) = x at *
  have hy : 1 ≤ x.year ∧ x.year < 10000 := by
    obtain ⟨y, m, d⟩ := x
    simp only [Date.days, YearDay.days] at hyear ⊢
    rw [if_pos (by omega), if_pos (by omega), if_neg (by omega), if_neg (by omega)] at hyear
    omega
  have hs : (t / 1000000000 % 86400).toNat < 86400 := by omega
  have hns : (t % 1000000000).toNat < 1000000000 := by omega
  rw [readDate_text hvalid ⟨by omega, hy.2⟩, Option.bind_some]
  simp only [List.tail_cons]
  rw [readTime_text hs, Option.bind_some]
  simp only
  rw [readFraction_text hns hc, Option.bind_some]
  simp only [hz, Option.bind_some]
  rw [if_neg (by omega), hdays]
  congr 1
  omega

theorem fromIso_rfc3339 {t : Int} (hlo : -62135596800000000000 ≤ t) (hhi : t < 253402300800000000000) :
    fromIso (rfc3339 t) = some (t / 1000) := fromIso_stamp hlo hhi (by decide) rfl

/-- The characters of a stamp. -/
theorem stamp_char {t : Int} {c : Char} (h : c ∈ stamp t) : c.isDigit = true ∨ c = '-' ∨ c = ':' ∨ c = 'T' ∨ c = '.' := by
  have hfraction : ∀ n, c ∈ fractionText n → c.isDigit = true ∨ c = '.' := by
    intro n hn
    unfold fractionText at hn
    split at hn
    · cases hn
    · rcases List.mem_cons.mp hn with hn | hn
      · exact Or.inr hn
      · have hmem := List.mem_reverse.mp hn
        exact Or.inl (pad_digit (List.mem_reverse.mp ((List.dropWhile_sublist _).subset hmem)))
  simp only [stamp, dateText, timeText, List.mem_append, List.mem_cons] at h
  rcases h with (h | h | h | h | h) | h | (h | h | h | h | h) | h
  case inr.inr.inr =>
    rcases hfraction _ h with h | h
    · exact Or.inl h
    · simp [h]
  all_goals first
    | exact Or.inl (pad_digit h)
    | simp [h]

theorem stamp_marker (t : Int) : 'T' ∈ stamp t := List.mem_append_right _ List.mem_cons_self

theorem stamp_head (t : Int) : ∃ c cs, stamp t = c :: cs ∧ c.isDigit = true := by
  obtain ⟨y, rest, hrest⟩ : ∃ y rest, stamp t = pad 4 y ++ rest := ⟨_, _, List.append_assoc _ _ _⟩
  have hlen := pad_length 4 y
  cases hp : pad 4 y with
  | nil =>
    rw [hp] at hlen
    cases hlen
  | cons c cs =>
    rw [hp] at hrest
    exact ⟨c, cs ++ rest, hrest, pad_digit (hp ▸ List.mem_cons_self)⟩

/-! ## Seconds since 1970 -/

/-- `time.Unix`, in seconds since 1970: a Go time counts 64-bit seconds from the year 1, and
    the addition wraps. -/
def timeUnix (sec : Int) : Int := (sec + 62135596800 + 2 ^ 63) % 2 ^ 64 - 2 ^ 63 - 62135596800

theorem timeUnix_of_le {sec : Int} (h0 : 0 ≤ sec) (h : sec < 2 ^ 63 - 62135596800) : timeUnix sec = sec := by
  unfold timeUnix
  omega

theorem timeUnix_of_wrap {sec : Int} (h : 2 ^ 63 - 62135596800 ≤ sec) (hlt : sec < 2 ^ 63) : timeUnix sec = sec - 2 ^ 64 := by
  unfold timeUnix
  omega

end CasuyaLive.Lib.Calendar
