/-
  CasuyaLive.System.FinalFrames — who takes a match frame for the final one: the study
  (analytics-engine-py, src/feature_study.py: `collect_settled`), the position gate
  (src/main.py: `_worker`), the paper executor (execution-engine-go, internal/broker/
  interfaces.go: `PaperRunLoop`) and the calibration (scripts/calibrate.py: `final_score`).

  The study and the calibration strip the clock and take FULLTIME and FT in any case; the
  worker takes FULLTIME in any case and strips nothing; the executor takes FULLTIME as it
  is. `finals_agree_iff`: on a frame with a match and a score the four agree iff the first
  two take it for no final frame, or its clock is exactly FULLTIME, its score fits the
  executor's integers and its audits raise nothing. On a clock FT they part
  (`the_executor_misses_ft`).
-/

import CasuyaLive.Analytics.Audits
import CasuyaLive.Execution.Paper.Store

namespace CasuyaLive.System

open CasuyaLive.Lib CasuyaLive.Analytics CasuyaLive.Execution

/-- A 64-bit integer. -/
def fitsInt64 (n : Int) : Bool := -9223372036854775808 ≤ n && n < 9223372036854775808

/-- The frame as `PaperRunLoop` unmarshals it. -/
def paperFrame (f : Analytics.Frame) : Option Paper.Frame :=
  let score := f.score.map fun nested => (nested.home.getD 0, nested.away.getD 0)
  if score.all fun x => fitsInt64 x.1 && fitsInt64 x.2 then
    some { clock := f.clock.getD "", matchID := f.matchID.getD "", score := score }
  else none

section

variable (cfg : Settings) (verdict : MomentumFrame → Except Raised (Option Trigger)) (f : Analytics.Frame) (m : String)

/-- The study drops the match's window. -/
def Settles : Prop := ∀ s : Study, (collectSettled s f).1.windows.get? m = none

/-- The worker closes every position of the match. -/
def Releases : Prop := ∀ (s : Analytics.Broker) (now : ℚ) (market : String),
  (serve cfg verdict s ⟨f, now⟩).gate.get? (m, market) = none

/-- The executor grades every pending order of the match. -/
def Grades : Prop := ∀ (o : Paper.Orders) (id : String) (fill : Fill), (id, fill) ∈ o.fills → fill.matchID = m →
  ∃ b, (paperFrame f).bind (Paper.feedBatch o) = some b ∧ id ∈ b.ids

/-- The calibration takes its score for the declared one, whatever came before. -/
def Accepts : Prop := ∀ earlier : List Analytics.Frame, finalScore (earlier ++ [f]) = some f.scores

def AllAgree : Prop :=
  (Settles f m ↔ Releases cfg verdict f m) ∧ (Releases cfg verdict f m ↔ Grades f m) ∧ (Grades f m ↔ Accepts f)

end

/-- The clock as the executor wants it, a score it can hold, and no audit that raises. -/
def Plain (f : Analytics.Frame) : Prop :=
  f.clock = some "FULLTIME" ∧ fitsInt64 f.scores.1 = true ∧ fitsInt64 f.scores.2 = true ∧
    ∀ x ∈ f.markets.entries, stops f x.2 = false

instance (f : Analytics.Frame) : Decidable (Plain f) := inferInstanceAs (Decidable (_ ∧ _ ∧ _ ∧ _))

section

variable {cfg : Settings} {verdict : MomentumFrame → Except Raised (Option Trigger)} {f : Analytics.Frame} {m : String}

theorem settles_iff (hm : f.matchID = some m) (hne : m ≠ "") : Settles f m ↔ f.isFinal = true := by
  have hb : (m == "") = false := by simpa using hne
  constructor
  · intro h
    by_contra hf
    have hopen := h ⟨Table.empty.set m [], Table.empty⟩
    rw [collectSettled_open _ (by simpa using hf)] at hopen
    simp at hopen
  · intro h s
    simp [collectSettled, h, hm, hb]

theorem audits_through (s : Study) {r : Received} (hf : r.frame.isFinal = true) :
    (auditAll r.asof (collectSettled s r.frame).2).2 = r.frame.markets.entries.all fun x => !stops r.frame x.2 := by
  rw [collectSettled_final_entries s hf, auditAll_through]

theorem releases_iff (hm : f.matchID = some m) :
    Releases cfg verdict f m ↔ f.closes = some m ∧ ∀ x ∈ f.markets.entries, stops f x.2 = false := by
  have hall : (f.markets.entries.all fun x => !stops f x.2) = true ↔ ∀ x ∈ f.markets.entries, stops f x.2 = false := by
    simp
  constructor
  · intro h
    -- a broker with one open position of the match
    let s : Analytics.Broker := { start 1 with gate := Table.empty.set (m, "1X2") "home" }
    have hheld : (s.gate.get? (m, "1X2")).isSome = true := by simp [s]
    have hgone := h s 0 "1X2"
    cases hc : f.closes with
    | none =>
      have hkept := @serve_keeps cfg verdict s ⟨f, 0⟩ (m, "1X2") hheld (Or.inl hc)
      rw [hgone] at hkept
      cases hkept
    | some m' =>
      have hid : m' = m := Option.some.inj ((closes_matchID hc).symm.trans hm)
      refine ⟨by rw [hid], hall.mp ?_⟩
      by_contra hstop
      have hend := audits_through s.study (r := ⟨f, 0⟩) (Frame.closes_final hc)
      rw [Bool.not_eq_true] at hstop
      have hkept := @serve_keeps cfg verdict s ⟨f, 0⟩ (m, "1X2") hheld (Or.inr (hend.trans hstop))
      rw [hgone] at hkept
      cases hkept
  · intro h s now market
    obtain ⟨hc, hgo⟩ := h
    have hend := audits_through s.study (r := ⟨f, now⟩) (Frame.closes_final hc)
    exact @serve_releases cfg verdict s ⟨f, now⟩ m hc (hend.trans (hall.mpr hgo)) market

theorem grades_iff (hm : f.matchID = some m) {nested : NestedScore} (hs : f.score = some nested) :
    Grades f m ↔ f.clock = some "FULLTIME" ∧ fitsInt64 f.scores.1 = true ∧ fitsInt64 f.scores.2 = true := by
  have hscores : f.scores = (nested.home.getD 0, nested.away.getD 0) := by rw [Analytics.Frame.scores, hs]
  have hclock : f.clock.getD "" = "FULLTIME" ↔ f.clock = some "FULLTIME" := by
    cases f.clock <;> simp
  have hframe : paperFrame f = if fitsInt64 f.scores.1 && fitsInt64 f.scores.2 then
      some { clock := f.clock.getD "", matchID := m, score := some f.scores } else none := by
    simp only [paperFrame, hs, hm, hscores, Option.map_some, Option.all_some, Option.getD_some]
  constructor
  · intro h
    let fill : Fill := ⟨"paper_1", "FULLTIME_1X2", "home", 2, 10, m, 0⟩
    have hin : ("paper_1", fill) ∈ (Paper.Orders.empty.insert fill).fills := by
      rw [Paper.Orders.mem_fills]
      simp [Paper.Orders.insert, fill]
    obtain ⟨b, hb, -⟩ := h _ _ _ hin rfl
    rw [hframe] at hb
    split at hb
    · rename_i hfits
      simp only [Option.bind_some, Paper.feedBatch] at hb
      split at hb
      · cases hb
      · rename_i hft
        exact ⟨hclock.mp (Decidable.not_not.mp hft), Bool.and_eq_true_iff.mp hfits⟩
    · cases hb
  · intro h o id fill hin hid
    obtain ⟨hft, h1, h2⟩ := h
    have hpicked : (id, fill) ∈ o.fills.filter (Paper.ofMatch m) := by
      rw [List.mem_filter]
      exact ⟨hin, by simp [Paper.ofMatch, hid]⟩
    have hne : (o.fills.filter (Paper.ofMatch m)).isEmpty = false := by
      cases hl : o.fills.filter (Paper.ofMatch m) with
      | nil =>
        rw [hl] at hpicked
        cases hpicked
      | cons x l => rfl
    rw [hframe, h1, h2, hclock.mpr hft]
    simp only [Bool.and_self, if_true, Option.bind_some, Paper.feedBatch, ne_eq, not_true_eq_false, if_false, hne,
      Bool.false_eq_true]
    exact ⟨_, rfl, List.mem_map.mpr ⟨_, hpicked, rfl⟩⟩

theorem accepts_iff : Accepts f ↔ f.isFinal = true := by
  have hmark : ["FULLTIME", "FT"].contains f.mark = true ↔ f.isFinal = true := by
    constructor
    · intro h
      have hcases : f.mark = "FULLTIME" ∨ f.mark = "FT" := by simpa using h
      rcases hcases with hx | hx <;> simp [Analytics.Frame.isFinal, Analytics.Frame.isBoundary, hx]
    · intro h
      exact (Bool.and_eq_true_iff.mp h).2
  constructor
  · intro h
    by_contra hf
    rw [← hmark, Bool.not_eq_true] at hf
    -- an earlier frame that declares another score
    let g : Analytics.Frame := { f with clock := some "FULLTIME", score := some ⟨some (f.scores.1 + 1), none⟩ }
    have hg : ["FULLTIME", "FT"].contains g.mark = true := by
      have : g.mark = "FULLTIME" := by
        show Text.toUpper (Text.strip "FULLTIME") = "FULLTIME"
        decide +kernel
      rw [this]
      rfl
    have hscore := h [g]
    simp only [finalScore, List.cons_append, List.nil_append, List.reverse_cons, List.reverse_nil, List.find?_cons, hf, hg,
      Option.some.injEq] at hscore
    have hfirst : f.scores.1 + 1 = f.scores.1 := congrArg Prod.fst hscore
    omega
  · intro h earlier
    rw [finalScore, List.reverse_append, List.reverse_singleton, List.singleton_append, List.find?_cons, hmark.mpr h]

/-- On a frame with a match and a score the four agree iff it is final for none of them, or
    plainly for all. -/
theorem finals_agree_iff (hm : f.matchID = some m) (hne : m ≠ "") (hs : f.score.isSome = true) :
    AllAgree cfg verdict f m ↔ f.isFinal = false ∨ Plain f := by
  obtain ⟨nested, hscore⟩ := Option.isSome_iff_exists.mp hs
  have hcloses : f.clock = some "FULLTIME" → f.closes = some m := by
    intro hc
    have hupper : Text.toUpper "FULLTIME" = "FULLTIME" := by decide +kernel
    simp [Analytics.Frame.closes, hc, hupper, hm, hne]
  unfold AllAgree
  rw [settles_iff hm hne, releases_iff hm, grades_iff hm hscore, accepts_iff]
  constructor
  · intro h
    obtain ⟨h1, h2, h3⟩ := h
    cases hf : f.isFinal with
    | false => exact Or.inl rfl
    | true =>
      obtain ⟨hc, hl, hr⟩ := h3.mpr hf
      exact Or.inr ⟨hc, hl, hr, (h1.mp hf).2⟩
  · intro h
    rcases h with hf | hp
    · have hopen : f.closes ≠ some m := fun hc => by
        rw [Frame.closes_final hc] at hf
        cases hf
      have hclock : f.clock ≠ some "FULLTIME" := fun hc => hopen (hcloses hc)
      simp [hf, hopen, hclock]
    · obtain ⟨hc, hl, hr, hgo⟩ := hp
      have hclosed := hcloses hc
      have hf := Frame.closes_final hclosed
      refine ⟨⟨fun _ => ⟨hclosed, hgo⟩, fun _ => hf⟩, ⟨fun _ => ⟨hc, hl, hr⟩, fun _ => ⟨hclosed, hgo⟩⟩,
        ⟨fun _ => hf, fun _ => ⟨hc, hl, hr⟩⟩⟩

end

/-- A FULLTIME frame with quotes that can be audited. -/
theorem a_plain_frame_agrees : AllAgree Settings.default betHome (quoted "FULLTIME" 1) "m1" ↔
    (quoted "FULLTIME" 1).isFinal = false ∨ Plain (quoted "FULLTIME" 1) :=
  finals_agree_iff rfl (by decide) rfl

/-- The same frame with the other name of the final whistle. -/
theorem the_executor_misses_ft :
    ¬ AllAgree Settings.default (filterVerdict FilterSettings.default) (quoted "FT" 1) "m1" := by
  intro h
  have hfinal : (quoted "FT" 1).isFinal = true := by decide +kernel
  have hgrades := h.2.2.mpr (accepts_iff.mpr hfinal)
  rw [grades_iff rfl rfl] at hgrades
  exact absurd hgrades.1 (by decide)

end CasuyaLive.System
