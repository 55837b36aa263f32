/-
  CasuyaLive.Analytics.Audits — the bets that a FULLTIME frame has audited
  (analytics-engine-py, src/main.py: `_worker`; src/feature_study.py: `collect_settled`;
  src/diagnostics.py: `_build_record`; src/position_gate.py).

  `AuditsTheBet`: for each market of the frame a record is published iff the gate held a
  position on it whose side lost, and the record names that side. The settled entries carry
  no side, so the audit takes the leg with the longest quote for the bet.

  `reports`: what is published depends on the frame alone, a record for each market whose
  longest leg lost, up to the first that makes the audit divide by zero.
  `audits_the_bet_iff`: in a run every FULLTIME frame audits the bets iff each time those
  legs are the sides the gate holds that lost (`LongestIsHeld`). A match with no bet is
  audited all the same (`no_bet_is_audited`).
-/

import CasuyaLive.Analytics.Cycles
import CasuyaLive.Analytics.Serial

namespace CasuyaLive.Analytics

open CasuyaLive.Lib

/-- The side lost under the final score of the frame. -/
def lost (f : Frame) (side : String) : Bool := !resolved side f.scores.1 f.scores.2

/-- The leg of the market with the longest quote, when it lost. -/
def lostLeg (f : Frame) (quotes : Quotes) : Option String := ((longest (closingOdds quotes)).map (·.1)).filter (lost f)

/-- A lost leg whose quote makes the audit divide by zero. -/
def stops (f : Frame) (quotes : Quotes) : Bool :=
  match longest (closingOdds quotes) with
  | none => false
  | some top => lost f top.1 && (top.2 == 0 || top.2 == -1)

/-- The markets the loop over the settled entries comes to the end of. -/
def reached (f : Frame) : List (String × Quotes) := f.markets.entries.takeWhile fun x => !stops f x.2

/-- The markets with a record, and the side each record names. -/
def reports (f : Frame) : List (String × String) := (reached f).filterMap fun x => (lostLeg f x.2).map fun side => (x.1, side)

section

variable (cfg : Settings) (verdict : MomentumFrame → Except Raised (Option Trigger))

/-- The records that serving the frame publishes. -/
def published (s : Broker) (r : Received) : List DiagnosticRecord :=
  ((serve cfg verdict s r).log.drop s.log.length).filterMap (recordOf s.history.length)

/-- A frame that closes a match has the open positions of the match audited that lost, each
    with its own side, and nothing else. -/
def AuditsTheBet (s : Broker) (r : Received) : Prop :=
  ∀ m, r.frame.closes = some m → ∀ market ∈ r.frame.markets.keys,
    ((∃ record ∈ published cfg verdict s r, record.matchID = some m ∧ record.marketID = market) ↔
      ∃ side, s.gate.get? (m, market) = some side ∧ lost r.frame side = true) ∧
    ∀ record ∈ published cfg verdict s r, record.marketID = market → s.gate.get? (m, market) = some record.predictedSide

end

/-- The longest legs that lost, of the markets the audit reaches, are the sides held that
    lost. -/
def LongestIsHeld (s : Broker) (r : Received) : Prop :=
  ∀ m ∈ r.frame.closes, ∀ market ∈ r.frame.markets.keys, ∀ side,
    (market, side) ∈ reports r.frame ↔ s.gate.get? (m, market) = some side ∧ lost r.frame side = true

/-! ## What is published -/

theorem longest_mem {odds : Table String ℚ} {top : String × ℚ} (h : longest odds = some top) : top ∈ odds.entries := by
  have hfold : ∀ (l : List (String × ℚ)) (best : Option (String × ℚ)), (∀ b ∈ best, b ∈ odds.entries) →
      (∀ x ∈ l, x ∈ odds.entries) → ∀ b ∈ l.foldl (fun best x =>
        match best with
        | none => some x
        | some b => if b.2 < x.2 then some x else some b) best, b ∈ odds.entries := by
    intro l
    induction l with
    | nil => intro best hbest _; exact hbest
    | cons x l ih =>
      intro best hbest hl
      refine ih _ ?_ fun y hy => hl y (List.mem_cons_of_mem _ hy)
      intro b hb
      have hx := hl x List.mem_cons_self
      cases best with
      | none =>
        simp only [Option.mem_some_iff] at hb
        exact hb ▸ hx
      | some c =>
        simp only at hb
        split at hb
        · simp only [Option.mem_some_iff] at hb
          exact hb ▸ hx
        · exact hbest b hb
  exact hfold odds.entries none (by simp) (fun _ hx => hx) top h

/-- The entry that `collect_settled` makes of a market. -/
def entryFor (f : Frame) (x : String × Quotes) : SettledEntry :=
  { matchID := f.matchID
    marketID := x.1
    finalHome := f.scores.1
    finalAway := f.scores.2
    closingOdds := closingOdds x.2
    predictedSide := ""
    closureDelta := 0 }

theorem collectSettled_final_entries (s : Study) {f : Frame} (h : f.isFinal = true) :
    (collectSettled s f).2 = f.markets.entries.map (entryFor f) := by
  simp only [collectSettled, h, if_true]
  rfl

/-- The audit of one market: it raises, says nothing, or reports the longest leg. -/
theorem audit_entry (now : ℚ) (f : Frame) (x : String × Quotes) :
    match audit now (entryFor f x) with
    | .error _ => stops f x.2 = true
    | .ok none => stops f x.2 = false ∧ lostLeg f x.2 = none
    | .ok (some record) => stops f x.2 = false ∧ lostLeg f x.2 = some record.predictedSide ∧
        record.matchID = f.matchID ∧ record.marketID = x.1 := by
  cases hl : longest (closingOdds x.2) with
  | none => simp [audit, entryFor, stops, lostLeg, hl]
  | some top =>
    have hprice : (closingOdds x.2).get? top.1 = some top.2 := (Table.mem_iff _ _ _).mp (longest_mem hl)
    by_cases hwon : resolved top.1 f.scores.1 f.scores.2 = true
    · simp [audit, entryFor, stops, lostLeg, lost, hl, hwon, pure, Except.pure]
    · by_cases hzero : top.2 = 0
      · simp [audit, entryFor, stops, lost, variance, hl, hwon, hprice, hzero, bind, Except.bind]
      · by_cases hminus : top.2 + 1 = 0
        · have : top.2 = -1 := by linarith
          simp [audit, entryFor, stops, lost, variance, overconfidence, hl, hwon, hprice, this, bind, Except.bind]
        · have : top.2 ≠ -1 := fun e => hminus (by rw [e]; norm_num)
          simp [audit, entryFor, stops, lostLeg, lost, variance, overconfidence, hl, hwon, hprice, hzero, hminus, this, bind,
            Except.bind, pure, Except.pure]

/-- The records of some markets, up to the first that stops the loop. -/
theorem auditAll_records (now : ℚ) (f : Frame) (markets : List (String × Quotes)) :
    (auditAll now (markets.map (entryFor f))).1.map (fun record => (record.marketID, record.predictedSide)) =
        ((markets.takeWhile fun x => !stops f x.2).filterMap fun x => (lostLeg f x.2).map fun side => (x.1, side)) ∧
      ∀ record ∈ (auditAll now (markets.map (entryFor f))).1, record.matchID = f.matchID := by
  induction markets with
  | nil => exact ⟨rfl, by simp [auditAll]⟩
  | cons x markets ih =>
    have hx := audit_entry now f x
    rw [List.map_cons, auditAll]
    cases ha : audit now (entryFor f x) with
    | error e =>
      simp only [ha] at hx
      simp [hx]
    | ok o =>
      cases o with
      | none =>
        simp only [ha] at hx
        simp only [List.takeWhile_cons, hx.1, hx.2, Bool.not_false, if_true, List.filterMap_cons, Option.map_none]
        exact ih
      | some record =>
        simp only [ha] at hx
        obtain ⟨hgo, hleg, hmatch, hmarket⟩ := hx
        simp only [List.takeWhile_cons, hgo, hleg, Bool.not_false, if_true, List.filterMap_cons, Option.map_some,
          List.map_cons, hmarket, ih.1, List.mem_cons, forall_eq_or_imp]
        exact ⟨trivial, hmatch, ih.2⟩

/-- The loop over the settled entries comes to its end when no market stops it. -/
theorem auditAll_through (now : ℚ) (f : Frame) (markets : List (String × Quotes)) :
    (auditAll now (markets.map (entryFor f))).2 = markets.all fun x => !stops f x.2 := by
  induction markets with
  | nil => rfl
  | cons x markets ih =>
    have hx := audit_entry now f x
    rw [List.map_cons, auditAll, List.all_cons]
    cases ha : audit now (entryFor f x) with
    | error e =>
      simp only [ha] at hx
      simp [hx]
    | ok o =>
      cases o with
      | none =>
        simp only [ha] at hx
        simpa [hx.1] using ih
      | some record =>
        simp only [ha] at hx
        simpa [hx.1] using ih

section

variable {cfg : Settings} {verdict : MomentumFrame → Except Raised (Option Trigger)}

/-- Serving a frame publishes the records of its audit. -/
theorem published_eq (s : Broker) (r : Received) :
    published cfg verdict s r = (auditAll r.asof (collectSettled s.study r.frame).2).1 := by
  have hrecords : ∀ l : List DiagnosticRecord,
      (l.map (Act.diagnostic s.history.length)).filterMap (recordOf s.history.length) = l := by
    intro l
    induction l with
    | nil => rfl
    | cons record l ih => simpa [recordOf] using ih
  have haudited : (audited s r).log =
      s.log ++ (auditAll r.asof (collectSettled s.study r.frame).2).1.map (.diagnostic s.history.length) := rfl
  have hlog : ∃ acts, (serve cfg verdict s r).log = (audited s r).log ++ acts ∧ ∀ j, acts.filterMap (recordOf j) = [] := by
    unfold serve
    split
    · exact observeAll_log _ _ _
    · exact ⟨[], by simp, fun _ => rfl⟩
  obtain ⟨acts, hacts, hquiet⟩ := hlog
  rw [published, hacts, haudited, List.append_assoc, List.drop_left, List.filterMap_append, hrecords, hquiet, List.append_nil]

theorem published_reports (s : Broker) {r : Received} (h : r.frame.isFinal = true) :
    (published cfg verdict s r).map (fun record => (record.marketID, record.predictedSide)) = reports r.frame ∧
      ∀ record ∈ published cfg verdict s r, record.matchID = r.frame.matchID := by
  rw [published_eq, collectSettled_final_entries s.study h]
  exact auditAll_records r.asof r.frame r.frame.markets.entries

theorem closes_matchID {f : Frame} {m : String} (h : f.closes = some m) : f.matchID = some m := by
  unfold Frame.closes at h
  split at h
  · rw [Option.filter_eq_some_iff] at h
    exact h.1
  · cases h

/-- A record of the market names the side that the frame reports for it. -/
theorem reports_iff_published (s : Broker) {r : Received} {m : String} (hm : r.frame.closes = some m) (market side : String) :
    (market, side) ∈ reports r.frame ↔
      ∃ record ∈ published cfg verdict s r, record.matchID = some m ∧ record.marketID = market ∧ record.predictedSide = side := by
  obtain ⟨hmap, hmatch⟩ := @published_reports cfg verdict s r (Frame.closes_final hm)
  rw [← hmap, List.mem_map]
  refine ⟨fun h => ?_, fun h => ?_⟩
  · obtain ⟨record, hin, he⟩ := h
    rw [Prod.mk.injEq] at he
    exact ⟨record, hin, (hmatch record hin).trans (closes_matchID hm), he.1, he.2⟩
  · obtain ⟨record, hin, -, h1, h2⟩ := h
    exact ⟨record, hin, by rw [h1, h2]⟩

/-- A FULLTIME frame audits the bets exactly when the longest legs that lost are the sides
    held that lost. -/
theorem audits_iff (s : Broker) (r : Received) : AuditsTheBet cfg verdict s r ↔ LongestIsHeld s r := by
  constructor
  · intro h m hm market hmarket side
    obtain ⟨hiff, hside⟩ := h m hm market hmarket
    rw [reports_iff_published s hm]
    constructor
    · intro hr
      obtain ⟨record, hin, hmatch, hid, rfl⟩ := hr
      obtain ⟨side, hheld, hlost⟩ := hiff.mp ⟨record, hin, hmatch, hid⟩
      have hown := hside record hin hid
      rw [hheld] at hown
      obtain rfl := Option.some.inj hown
      exact ⟨hheld, hlost⟩
    · intro hr
      obtain ⟨hheld, hlost⟩ := hr
      obtain ⟨record, hin, hmatch, hid⟩ := hiff.mpr ⟨side, hheld, hlost⟩
      have hown := hside record hin hid
      rw [hheld] at hown
      exact ⟨record, hin, hmatch, hid, (Option.some.inj hown).symm⟩
  · intro h m hm market hmarket
    have hcond := h m hm market hmarket
    refine ⟨⟨fun hr => ?_, fun hr => ?_⟩, fun record hin hid => ?_⟩
    · obtain ⟨record, hin, hmatch, hid⟩ := hr
      exact ⟨record.predictedSide, (hcond _).mp ((reports_iff_published s hm market _).mpr ⟨record, hin, hmatch, hid, rfl⟩)⟩
    · obtain ⟨side, hheld, hlost⟩ := hr
      obtain ⟨record, hin, hmatch, hid, -⟩ := (reports_iff_published s hm market side).mp ((hcond side).mpr ⟨hheld, hlost⟩)
      exact ⟨record, hin, hmatch, hid⟩
    · obtain ⟨-, hmatch⟩ := @published_reports cfg verdict s r (Frame.closes_final hm)
      have hmine := (hmatch record hin).trans (closes_matchID hm)
      exact ((hcond _).mp ((reports_iff_published s hm market _).mpr ⟨record, hin, hmine, hid, rfl⟩)).1

/-- In a run of frames every FULLTIME frame audits the bets iff the longest legs that lost are
    each time the sides held that lost. -/
theorem audits_the_bet_iff (rs : List Received) :
    (∀ pre r post, rs = pre ++ r :: post → AuditsTheBet cfg verdict (serveAll cfg verdict (start 1) pre) r) ↔
      Meets (serve cfg verdict) LongestIsHeld (start 1) rs := by
  rw [meets_iff]
  constructor
  · intro h pre r post he
    exact (audits_iff _ r).mp (h pre r post he)
  · intro h pre r post he
    exact (audits_iff _ r).mpr (h pre r post he)

end

/-- Under the default filter a match on which nothing was ever bet is reported as a lost
    home bet. -/
theorem no_bet_is_audited : ¬ ∀ pre r post, [(⟨quoted "FULLTIME" 1, 60⟩ : Received)] = pre ++ r :: post →
    AuditsTheBet Settings.default (filterVerdict FilterSettings.default)
      (serveAll Settings.default (filterVerdict FilterSettings.default) (start 1) pre) r := by
  intro h
  have hheld := (audits_iff _ _).mp (h [] _ [] rfl) "m1" (by decide +kernel) "1X2" (by decide +kernel) "home"
  exact absurd hheld (by decide +kernel)

end CasuyaLive.Analytics
