/-
  CasuyaLive.Calibration.FinalScore — the score that labels a cycle's rows
  (analytics-engine-py, scripts/calibrate.py: `final_score`; src/feature_study.py:
  `_parse_clock_minute`).

  The clocks of stoppage time are all parsed to one minute, and many polls share one. Without
  a declared score, `final_score` keeps the earliest frame of the highest clock
  (`finalScore_earliest`), not the latest. `final_score_iff`: it is the last known score iff
  one is declared or those two frames show the same.
-/

import CasuyaLive.Analytics.Replay
import CasuyaLive.Lib.Champion

namespace CasuyaLive.Calibration

open CasuyaLive.Lib CasuyaLive.Analytics

/-- A frame that declares its score the final one. -/
def declared (f : Frame) : Bool := ["FULLTIME", "FT"].contains f.mark

def minuteOf (f : Frame) : Option ℚ := parseClockMinute (f.clock.getD "")

/-- The minute of a frame from 88' on. -/
def closingMinute (f : Frame) : Option ℚ := (minuteOf f).filter fun minute => 88 ≤ minute

/-- The frames from 88' on with their minutes. -/
def closing (cycle : List Frame) : List (ℚ × Frame) :=
  cycle.filterMap fun f => (closingMinute f).map fun minute => (minute, f)

/-- Those of the highest clock. -/
def highest (cycle : List Frame) : List (ℚ × Frame) :=
  (closing cycle).filter fun x => (closing cycle).all fun y => y.1 ≤ x.1

/-- The score of the last declared frame, or else of the latest one of the highest clock. -/
def lastKnown (cycle : List Frame) : Option (Int × Int) :=
  match (cycle.filter declared).getLast? with
  | some f => some f.scores
  | none => (highest cycle).getLast?.map (·.2.scores)

/-- Frames in the order of their clocks. -/
def Chronological (cycle : List Frame) : Prop := (cycle.filterMap minuteOf).Pairwise (· ≤ ·)

/-! ## The scan -/

theorem nearFinal_eq (best : Option (ℚ × Frame)) (f : Frame) :
    nearFinal best f = ((closingMinute f).map fun minute => (minute, f)).elim best (keep (·.1) best) := by
  unfold nearFinal closingMinute minuteOf
  cases parseClockMinute (f.clock.getD "") with
  | none => rfl
  | some minute =>
    by_cases hlate : 88 ≤ minute
    · have hno : ¬ minute < 88 := not_lt.mpr hlate
      cases best with
      | none => simp [Option.filter, hlate, hno, keep]
      | some b => simp [Option.filter, hlate, hno, keep]
    · have hyes : minute < 88 := not_le.mp hlate
      simp [Option.filter, hlate, hyes]

theorem foldl_nearFinal (cycle : List Frame) : ∀ best, cycle.foldl nearFinal best = (closing cycle).foldl (keep (·.1)) best := by
  induction cycle with
  | nil =>
    intro best
    rfl
  | cons f cycle ih =>
    intro best
    have hclosing : closing (f :: cycle) = ((closingMinute f).map fun minute => (minute, f)).toList ++ closing cycle := by
      rw [closing, List.filterMap_cons]
      cases closingMinute f <;> rfl
    rw [List.foldl_cons, ih, hclosing, List.foldl_append, nearFinal_eq]
    cases closingMinute f <;> rfl

/-- Without a declared score the label is that of the earliest frame of the highest clock. -/
theorem finalScore_earliest {cycle : List Frame} (h : ∀ f ∈ cycle, declared f = false) :
    finalScore cycle = (highest cycle).head?.map (·.2.scores) := by
  have hnone : cycle.reverse.find? declared = none := by
    rw [List.find?_eq_none]
    intro f hf
    simp [h f (List.mem_reverse.mp hf)]
  have hfind : (cycle.reverse.find? fun f => ["FULLTIME", "FT"].contains f.mark) = none := hnone
  rw [finalScore, hfind, foldl_nearFinal, champion_first, highest, List.head?_filter]

theorem finalScore_declared {cycle : List Frame} {f : Frame} (h : (cycle.filter declared).getLast? = some f) :
    finalScore cycle = some f.scores := by
  have hfind : (cycle.reverse.find? fun f => ["FULLTIME", "FT"].contains f.mark) = some f := by
    rw [← List.head?_filter, List.filter_reverse, List.head?_reverse]
    exact h
  rw [finalScore, hfind]

/-- The final score is the last known one iff one is declared, or the earliest and the latest
    frame of the highest clock from 88' on show the same (as when there is none). -/
theorem final_score_iff (cycle : List Frame) : finalScore cycle = lastKnown cycle ↔
    (∃ f ∈ cycle, declared f = true) ∨
      (highest cycle).head?.map (·.2.scores) = (highest cycle).getLast?.map (·.2.scores) := by
  cases hlast : (cycle.filter declared).getLast? with
  | some f =>
    have hmem := List.mem_filter.mp (List.mem_of_getLast? hlast)
    refine iff_of_true ?_ (Or.inl ⟨f, hmem⟩)
    rw [finalScore_declared hlast, lastKnown, hlast]
  | none =>
    have hnone : ∀ f ∈ cycle, declared f = false := by
      intro f hf
      have hnil := List.getLast?_eq_none_iff.mp hlast
      simpa using List.filter_eq_nil_iff.mp hnil f hf
    rw [finalScore_earliest hnone, lastKnown, hlast]
    constructor
    · intro h
      exact Or.inr h
    · intro h
      rcases h with ⟨f, hf, hdeclared⟩ | h
      · rw [hnone f hf] at hdeclared
        cases hdeclared
      · exact h

/-- A goal in stoppage time, after the first poll at 90, is not counted. -/
theorem a_stoppage_goal_is_lost : ¬ ∀ cycle : List Frame, Chronological cycle → finalScore cycle = lastKnown cycle := by
  intro h
  have hcycle := h [frameAt "90'" 10, { frameAt "90+4'" 12 with score := some ⟨some 1, some 1⟩ }] (by
    rw [Chronological]
    decide +kernel)
  revert hcycle
  decide +kernel

end CasuyaLive.Calibration
