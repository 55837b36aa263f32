/-
  CasuyaLive.Ingest.Markers — which status texts the two feeds take for full time
  (data-ingestion-go, internal/helabet/types.go: `ParseClock`, `IsFullTime`; internal/betpawa/
  types.go: `parseClock`, `isFullTimePeriod`).

  All four look for a marker anywhere in the text in capitals. What makes a character part of
  a word is a parameter for helabet, and anything but an underscore for a betpawa slug.
  `whole_markers_iff`: a text is read by its whole words iff it holds no marker inside a
  longer word only; helabet's two functions moreover differ on "FT" next to other text and on
  a half-time line that names a marker (`a_suspension_is_full_time`). On the lines they agree
  on, a match is over where the line says so or its clock has stopped (`isFullTime_worded`).
-/

import CasuyaLive.Ingest.Helabet.Types
import CasuyaLive.Ingest.Betpawa.Types

namespace CasuyaLive.Ingest

open CasuyaLive.Lib.Text CasuyaLive.Ingest.Stream

/-- No word goes on across this side of a marker. -/
def Edge (isWord : Char → Bool) (c : Option Char) : Prop := c.all (fun x => !isWord x) = true

instance (isWord : Char → Bool) (c : Option Char) : Decidable (Edge isWord c) := inferInstanceAs (Decidable (_ = true))

/-- The marker stands somewhere in the text with a word's edge on either side. -/
def WholeWord (isWord : Char → Bool) (s marker : String) : Prop :=
  ∃ n ≤ s.toList.length, marker.toList <+: s.toList.drop n ∧ Edge isWord (s.toList.take n).getLast? ∧
    Edge isWord (s.toList.drop (n + marker.toList.length)).head?

instance (isWord : Char → Bool) (s marker : String) : Decidable (WholeWord isWord s marker) :=
  inferInstanceAs (Decidable (∃ n, n ≤ _ ∧ _))

theorem wholeWord_self (isWord : Char → Bool) (marker : String) : WholeWord isWord marker marker := by
  refine ⟨0, Nat.zero_le _, ?_, ?_, ?_⟩ <;> simp [Edge]

namespace Helabet

def markers : List String := ["FT", "FULL TIME", "FINISHED", "ENDED"]

/-- A status line as both functions read it. -/
def capitals (status : String) : String := toUpper (trimSpace status)

def halfTimeLine (u : String) : Bool := u == "HT" || hasPrefix u "HALF TIME" || hasPrefix u "HALFTIME"

/-- The markers that count anywhere for both functions. -/
def longMarker (u : String) : Bool := contains u "FINISHED" || contains u "ENDED" || contains u "FULL TIME"

/-- The text part of `IsFullTime`. -/
def textFull (status : String) : Bool := longMarker (capitals status) || capitals status == "FT"

/-- The other part: the clock has stopped after 90 minutes. -/
def timerFull (sc : Scores) : Bool :=
  match sc.timer with
  | none => false
  | some t => !t.timeRun && 2 ≤ sc.currentPeriod && 5400 ≤ t.timeSec

theorem isFullTime_parts (raw : RawMatch) :
    isFullTime raw = raw.scores.any fun sc => textFull sc.statusLineStr || timerFull sc := by
  unfold isFullTime
  cases raw.scores with
  | none => rfl
  | some sc =>
    simp only [Option.any_some, textFull, longMarker, capitals, timerFull]
    split
    · rename_i h
      rw [h, Bool.true_or]
    · rename_i h
      rw [Bool.not_eq_true] at h
      rw [h]
      exact (Bool.false_or _).symm

theorem parseClock_iff (status : String) (timer : Option MatchTimer) : parseClock status timer = fulltime ↔
    halfTimeLine (capitals status) = false ∧ (contains (capitals status) "FT" = true ∨ longMarker (capitals status) = true) := by
  have hht : ("HT" : String) ≠ fulltime := by decide
  have hlive : ("LIVE" : String) ≠ fulltime := by decide
  have hminute : ∀ n : Int, itoa n ++ "'" ≠ fulltime := Betpawa.itoa_minute_ne
  unfold parseClock
  simp only
  rw [← capitals]
  by_cases hh : halfTimeLine (capitals status) = true
  · have hh' := hh
    rw [halfTimeLine] at hh'
    rw [if_pos hh']
    simp [hh, hht]
  · have hh' := hh
    rw [halfTimeLine] at hh'
    rw [if_neg hh']
    by_cases hm : contains (capitals status) "FT" = true ∨ longMarker (capitals status) = true
    · have hm' : (contains (capitals status) "FT" || contains (capitals status) "FINISHED" || contains (capitals status) "ENDED" ||
          contains (capitals status) "FULL TIME") = true := by
        simpa [longMarker, or_assoc] using hm
      rw [if_pos hm']
      simp [hh, hm]
    · have hm' : ¬(contains (capitals status) "FT" || contains (capitals status) "FINISHED" ||
          contains (capitals status) "ENDED" || contains (capitals status) "FULL TIME") = true := by
        simpa [longMarker, or_assoc] using hm
      rw [if_neg hm']
      simp only [hm, and_false, iff_false]
      split
      · exact hminute _
      · split
        · split
          · exact hminute _
          · exact hlive
        · exact hlive

/-- The functions agree on the line, and take it for full time by a whole word only. -/
structure ReadsWords (isWord : Char → Bool) (status : String) : Prop where
  agree : ∀ timer, parseClock status timer = fulltime ↔ textFull status = true
  word : ∀ timer, parseClock status timer = fulltime ∨ textFull status = true →
    ∃ m ∈ markers, WholeWord isWord (capitals status) m

/-- A half-time line names none of the long markers; in another one, "FT" is all there is or
    comes with a long marker, and long markers come with one that is a whole word. -/
def Worded (isWord : Char → Bool) (u : String) : Prop :=
  if halfTimeLine u then longMarker u = false
  else
    (contains u "FT" = true → longMarker u = true ∨ u = "FT") ∧ (longMarker u = true → ∃ m ∈ markers, WholeWord isWord u m)

theorem textFull_iff (status : String) :
    textFull status = true ↔ longMarker (capitals status) = true ∨ capitals status = "FT" := by
  rw [textFull, Bool.or_eq_true, beq_iff_eq]

theorem readsWords_half (isWord : Char → Bool) {status : String} (hh : halfTimeLine (capitals status) = true) :
    ReadsWords isWord status ↔ longMarker (capitals status) = false := by
  have hne : capitals status ≠ "FT" := by
    intro e
    rw [e] at hh
    revert hh
    decide
  constructor
  · intro h
    by_contra hl
    have hfull := (h.agree none).mpr ((textFull_iff status).mpr (Or.inl (by simpa using hl)))
    rw [parseClock_iff, hh] at hfull
    cases hfull.1
  · intro hl
    have hno : ¬textFull status = true := by
      rw [textFull_iff, hl]
      simp [hne]
    refine ⟨fun timer => ?_, fun timer h => ?_⟩
    · rw [parseClock_iff, hh]
      simp [hno]
    · rw [parseClock_iff, hh] at h
      simp [hno] at h

theorem readsWords_other (isWord : Char → Bool) {status : String} (hh : halfTimeLine (capitals status) = false) :
    ReadsWords isWord status ↔
      (contains (capitals status) "FT" = true → longMarker (capitals status) = true ∨ capitals status = "FT") ∧
        (longMarker (capitals status) = true → ∃ m ∈ markers, WholeWord isWord (capitals status) m) := by
  have hft : contains "FT" "FT" = true := by decide
  constructor
  · intro h
    refine ⟨fun hc => ?_, fun hl => h.word none (Or.inr ((textFull_iff status).mpr (Or.inl hl)))⟩
    exact (textFull_iff status).mp ((h.agree none).mp ((parseClock_iff status none).mpr ⟨hh, Or.inl hc⟩))
  · intro h
    obtain ⟨hagree, hword⟩ := h
    have hsame : ∀ timer, parseClock status timer = fulltime ↔ textFull status = true := by
      intro timer
      rw [parseClock_iff, textFull_iff]
      constructor
      · intro hp
        rcases hp.2 with hc | hl
        · exact hagree hc
        · exact Or.inl hl
      · intro ht
        rcases ht with hl | he
        · exact ⟨hh, Or.inr hl⟩
        · exact ⟨hh, Or.inl (by rw [he, hft])⟩
    refine ⟨hsame, fun timer h => ?_⟩
    rw [hsame, or_self, textFull_iff] at h
    rcases h with hl | he
    · exact hword hl
    · exact ⟨"FT", by simp [markers], by rw [he]; exact wholeWord_self isWord "FT"⟩

theorem readsWords_iff (isWord : Char → Bool) (status : String) : ReadsWords isWord status ↔ Worded isWord (capitals status) := by
  unfold Worded
  by_cases hh : halfTimeLine (capitals status) = true
  · rw [if_pos hh]
    exact readsWords_half isWord hh
  · rw [if_neg hh]
    exact readsWords_other isWord (Bool.not_eq_true _ ▸ hh)

/-- A match whose line is read by its words is over for `IsFullTime` where the line says so or
    the clock has stopped. -/
theorem isFullTime_worded {isWord : Char → Bool} {raw : RawMatch} {sc : Scores} (hsc : raw.scores = some sc)
    (h : ReadsWords isWord sc.statusLineStr) :
    isFullTime raw = true ↔ parseClock sc.statusLineStr sc.timer = fulltime ∨ timerFull sc = true := by
  have hparts := isFullTime_parts raw
  rw [hsc, Option.any_some] at hparts
  rw [hparts, Bool.or_eq_true]
  exact or_congr_left (h.agree sc.timer).symm

end Helabet

namespace Betpawa

def slugMarkers : List String := ["FULL_TIME", "FINISHED", "ENDED"]

def inWord (c : Char) : Bool := c != '_'

structure ReadsWords (d : RawDisplay) : Prop where
  agree : parseClock d = fulltime ↔ isFullTimePeriod d = true
  word : parseClock d = fulltime ∨ isFullTimePeriod d = true → ∃ m ∈ slugMarkers, WholeWord inWord (toUpper d.slug) m

/-- Unless the slug is a half time, its markers come with one between underscores. -/
def Worded (u : String) : Prop :=
  contains u "HALF_TIME" = false → finishedSlug u = true → ∃ m ∈ slugMarkers, WholeWord inWord u m

theorem isFullTimePeriod_iff (d : RawDisplay) :
    isFullTimePeriod d = true ↔ contains (toUpper d.slug) "HALF_TIME" = false ∧ finishedSlug (toUpper d.slug) = true := by
  unfold isFullTimePeriod
  simp only
  by_cases h : contains (toUpper d.slug) "HALF_TIME" = true <;> simp [h]

theorem readsWords_iff (d : RawDisplay) : ReadsWords d ↔ Worded (toUpper d.slug) := by
  constructor
  · intro h hh hf
    exact h.word (Or.inr ((isFullTimePeriod_iff d).mpr ⟨hh, hf⟩))
  · intro h
    refine ⟨parseClock_fulltime d, fun hd => ?_⟩
    rw [parseClock_fulltime, or_self, isFullTimePeriod_iff] at hd
    exact h hd.1 hd.2

end Betpawa

/-- Both feeds, every text. -/
theorem whole_markers_iff (isWord : Char → Bool) :
    (∀ status, Helabet.ReadsWords isWord status ↔ Helabet.Worded isWord (Helabet.capitals status)) ∧
      ∀ d, Betpawa.ReadsWords d ↔ Betpawa.Worded (toUpper d.slug) :=
  ⟨Helabet.readsWords_iff isWord, Betpawa.readsWords_iff⟩

/-- A suspension ends the match in both feeds, and a pause after a goal in one function of two. -/
theorem a_suspension_is_full_time :
    ¬Helabet.ReadsWords Char.isAlphanum "Suspended" ∧ ¬Helabet.ReadsWords Char.isAlphanum "Break after goal" ∧
      ¬Betpawa.ReadsWords { slug := "SUSPENDED", minute := "70" } := by
  rw [Helabet.readsWords_iff, Helabet.readsWords_iff, Betpawa.readsWords_iff]
  unfold Helabet.Worded Betpawa.Worded
  decide +kernel

end CasuyaLive.Ingest
