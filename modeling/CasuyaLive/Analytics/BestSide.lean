/-
  CasuyaLive.Analytics.BestSide — the choice of the strongest leg (analytics-engine-py,
  src/filter_engine.py: `best_side`, `evaluate`).

  `better` is a scan of priced legs (`bestSide_eq`), so the choice is a leg that none beats.
  In exact arithmetic with a positive odds floor, the verdict executes exactly when some
  eligible leg has an edge above the slack (`executes_iff`), on an eligible leg of maximal
  edge at that leg's price (`executes_best`).

  The draw has a floor of its own, which the choice never reads. `draw_floor_iff`: a draw
  below it is passed over exactly when the band or a stronger leg keeps it out.
-/

import CasuyaLive.Analytics.Posteriors
import CasuyaLive.Lib.Champion

namespace CasuyaLive.Analytics

open CasuyaLive.Lib

/-! ## The scan -/

def InBand (cfg : FilterSettings) (snap : MomentumFrame) (side : String) : Prop :=
  cfg.minOdds ≤ priceOf snap.odds side ∧ priceOf snap.odds side ≤ cfg.maxOdds

instance (cfg : FilterSettings) (snap : MomentumFrame) (side : String) : Decidable (InBand cfg snap side) :=
  inferInstanceAs (Decidable (_ ∧ _))

/-- A leg with its two probabilities, none when its price is out of the band. -/
noncomputable def priced (cfg : FilterSettings) (snap : MomentumFrame) (side : String) :
    Except Raised (Option (String × ℝ × ℝ)) :=
  if InBand cfg snap side then do
    let trueProb ← trueProbability cfg snap side
    let implied ← impliedProbability (priceOf snap.odds side)
    return some (side, trueProb, implied)
  else .ok none

def edge (leg : String × ℝ × ℝ) : ℝ := leg.2.1 - leg.2.2

variable {cfg : FilterSettings} {snap : MomentumFrame}

theorem better_eq (best : Option (String × ℝ × ℝ)) (side : String) :
    better cfg snap best side = (priced cfg snap side).map fun o => o.elim best (keep edge best) := by
  by_cases h : InBand cfg snap side
  · have hno : ¬ (priceOf snap.odds side < cfg.minOdds ∨ cfg.maxOdds < priceOf snap.odds side) := by
      rw [not_or, not_lt, not_lt]
      exact h
    simp only [better, priced, if_neg hno, if_pos h]
    cases trueProbability cfg snap side with
    | error x => rfl
    | ok p =>
      cases impliedProbability (priceOf snap.odds side) with
      | error x => rfl
      | ok i =>
        cases best with
        | none => rfl
        | some b =>
          by_cases hlt : b.2.1 - b.2.2 < p - i
          · simp [keep, edge, hlt, bind, Except.bind, pure, Except.pure, Except.map]
          · simp [keep, edge, hlt, bind, Except.bind, pure, Except.pure, Except.map]
  · have hyes : priceOf snap.odds side < cfg.minOdds ∨ cfg.maxOdds < priceOf snap.odds side := by
      rw [InBand, not_and_or, not_le, not_le] at h
      exact h
    simp only [better, priced, if_pos hyes, if_neg h]
    rfl

theorem bestSide_eq :
    bestSide cfg snap = ((sides cfg).mapM (priced cfg snap)).map fun found =>
      (found.reduceOption.foldl (keep edge) none).getD ("", 0, 0) := by
  have hfold : (sides cfg).foldlM (better cfg snap) none = ((sides cfg).mapM (priced cfg snap)).map fun found =>
      found.reduceOption.foldl (keep edge) none := by
    rw [← foldlM_keep]
    congr 1
    funext best side
    exact better_eq best side
  rw [bestSide, hfold]
  cases (sides cfg).mapM (priced cfg snap) <;> rfl

/-- The verdict on a snapshot with quotes, once the leg is chosen. -/
noncomputable def verdictOn (cfg : FilterSettings) (snap : MomentumFrame) (leg : String × ℝ × ℝ) : Verdict :=
  open Classical in
  if leg.1 = "" then
    ⟨false, snap.matchID, snap.marketID, leg.1, priceOf snap.odds leg.1, leg.2.2, leg.2.1, snap.features,
      [.noLeg cfg.minOdds cfg.maxOdds]⟩
  else
    ⟨decide (leg.2.2 + cfg.marginSlack < leg.2.1), snap.matchID, snap.marketID, leg.1, priceOf snap.odds leg.1,
      round4 leg.2.2, round4 leg.2.1, snap.features,
      if leg.2.2 + cfg.marginSlack < leg.2.1 then [] else [.noEdge leg.2.1 leg.2.2]⟩

theorem evaluate_eq (h : snap.odds.entries.isEmpty = false) :
    evaluate cfg snap = (bestSide cfg snap).map (verdictOn cfg snap) := by
  unfold evaluate
  rw [h]
  cases bestSide cfg snap with
  | error x => rfl
  | ok leg =>
    by_cases hs : leg.1 = ""
    · simp [verdictOn, hs, bind, Except.bind, pure, Except.pure, Except.map]
    · simp [verdictOn, hs, bind, Except.bind, pure, Except.pure, Except.map]

/-! ## Legs -/

/-- What a priced leg says. -/
theorem priced_some {side : String} {leg : String × ℝ × ℝ} (h : priced cfg snap side = .ok (some leg)) :
    InBand cfg snap side ∧ leg.1 = side ∧ trueProbability cfg snap side = .ok leg.2.1 ∧
      priceOf snap.odds side ≠ 0 ∧ leg.2.2 = 1 / (priceOf snap.odds side : ℝ) := by
  unfold priced at h
  split at h
  · rename_i hband
    cases hp : trueProbability cfg snap side with
    | error x => simp [hp, bind, Except.bind] at h
    | ok p =>
      by_cases h0 : priceOf snap.odds side = 0
      · simp [hp, impliedProbability, h0, bind, Except.bind] at h
      · simp only [hp, impliedProbability, if_neg h0, bind, Except.bind, pure, Except.pure, Except.ok.injEq,
          Option.some.injEq] at h
        subst h
        exact ⟨hband, rfl, rfl, h0, rfl⟩
  · cases h

theorem priced_of {side : String} {p : ℝ} (hband : InBand cfg snap side) (hp : trueProbability cfg snap side = .ok p)
    (h0 : priceOf snap.odds side ≠ 0) :
    priced cfg snap side = .ok (some (side, p, 1 / (priceOf snap.odds side : ℝ))) := by
  simp only [priced, if_pos hband, hp, impliedProbability, if_neg h0, bind, Except.bind, pure, Except.pure]

theorem priced_out {side : String} (h : ¬ InBand cfg snap side) : priced cfg snap side = .ok none := by
  rw [priced, if_neg h]

theorem priced_none {side : String} (h : priced cfg snap side = .ok none) : ¬ InBand cfg snap side := by
  intro hband
  rw [priced, if_pos hband] at h
  cases hp : trueProbability cfg snap side with
  | error x => simp [hp, bind, Except.bind] at h
  | ok p =>
    cases hi : impliedProbability (priceOf snap.odds side) with
    | error x => simp [hp, hi, bind, Except.bind] at h
    | ok i => simp [hp, hi, bind, Except.bind, pure, Except.pure] at h

theorem sides_named {side : String} (h : side ∈ sides cfg) : side = "home" ∨ side = "away" ∨ side = "draw" := by
  unfold sides at h
  split at h
  · simpa using h
  · simp only [List.mem_cons, List.not_mem_nil, or_false] at h
    tauto

/-- The side is enabled and its price lies in the band. -/
def Eligible (cfg : FilterSettings) (snap : MomentumFrame) (side : String) : Prop :=
  side ∈ sides cfg ∧ InBand cfg snap side

/-- An eligible leg and how far its posterior is above the implied probability. -/
def HasEdge (cfg : FilterSettings) (snap : MomentumFrame) (side : String) (e : ℝ) : Prop :=
  Eligible cfg snap side ∧ ∃ p, trueProbability cfg snap side = .ok p ∧ e = p - 1 / (priceOf snap.odds side : ℝ)

theorem quoted_of_price {odds : Table String ℚ} {side : String} (h : priceOf odds side ≠ 0) :
    ∃ price, odds.get? side = some price := by
  cases hget : odds.get? side with
  | none => exact absurd (by simp [priceOf, hget]) h
  | some price => exact ⟨price, rfl⟩

/-- The choice among priced legs. -/
theorem bestSide_ok {leg : String × ℝ × ℝ} (h : bestSide cfg snap = .ok leg) :
    (leg.1 = "" ∧ ∀ side ∈ sides cfg, ¬ InBand cfg snap side) ∨
      (leg.1 ∈ sides cfg ∧ priced cfg snap leg.1 = .ok (some leg) ∧
        ∀ side ∈ sides cfg, ∀ other, priced cfg snap side = .ok (some other) → edge other ≤ edge leg) := by
  rw [bestSide_eq] at h
  cases hm : (sides cfg).mapM (priced cfg snap) with
  | error x => simp [hm, Except.map] at h
  | ok found =>
    simp only [hm, Except.map, Except.ok.injEq] at h
    obtain ⟨hto, hfrom⟩ := mapM_ok_mem hm
    have hchampion := @champion_scan _ _ _ edge found.reduceOption
    cases hbest : found.reduceOption.foldl (keep edge) none with
    | none =>
      rw [hbest] at h
      subst h
      refine Or.inl ⟨rfl, fun side hside => ?_⟩
      obtain ⟨o, ho, hpriced⟩ := hto side hside
      cases o with
      | none => exact priced_none hpriced
      | some l =>
        have hne : found.reduceOption ≠ [] := List.ne_nil_of_mem (List.reduceOption_mem_iff.mpr ho)
        exact absurd (hchampion.isSome hne) (by rw [hbest]; simp)
    | some b =>
      rw [hbest, Option.getD_some] at h
      subst h
      obtain ⟨side, hside, hpriced⟩ := hfrom _ (List.reduceOption_mem_iff.mp (hchampion.mem b hbest))
      obtain ⟨-, hname, -⟩ := priced_some hpriced
      rw [← hname] at hside hpriced
      refine Or.inr ⟨hside, hpriced, fun other hother l hl => ?_⟩
      obtain ⟨o, ho, heq⟩ := hto other hother
      rw [hl] at heq
      cases heq
      exact hchampion.unbeaten b hbest l (List.reduceOption_mem_iff.mpr ho)

/-! ## Exact arithmetic -/

theorem trueProbability_exact_ok (hexact : cfg.exact = true) (ht : cfg.temperature ≠ 0) (snap : MomentumFrame) (side : String) :
    ∃ p, trueProbability cfg snap side = .ok p := by
  by_cases hd : side = "draw"
  · subst hd
    exact ⟨_, trueProbability_draw (legProbability_exact hexact ht snap "home") (legProbability_exact hexact ht snap "away")⟩
  · exact ⟨_, (trueProbability_leg hd snap).trans (legProbability_exact hexact ht snap side)⟩

theorem temperature_of_ok {side : String} {p : ℝ} (h : trueProbability cfg snap side = .ok p) : cfg.temperature ≠ 0 := by
  intro ht
  have hleg : ∀ s, legProbability cfg snap s = .error .zeroDivision := by
    intro s
    simp [legProbability, ht]
  by_cases hd : side = "draw"
  · simp [trueProbability, hd, hleg, bind, Except.bind] at h
  · rw [trueProbability_leg hd, hleg] at h
    cases h

/-- With a positive odds floor nothing raises. -/
theorem bestSide_exact (hexact : cfg.exact = true) (hmin : 0 < cfg.minOdds) (ht : cfg.temperature ≠ 0) (snap : MomentumFrame) :
    ∃ leg, bestSide cfg snap = .ok leg := by
  have hall : ∀ side ∈ sides cfg, ∃ o, priced cfg snap side = .ok o := by
    intro side _
    by_cases hband : InBand cfg snap side
    · obtain ⟨p, hp⟩ := trueProbability_exact_ok hexact ht snap side
      have h0 : priceOf snap.odds side ≠ 0 := (hmin.trans_le hband.1).ne'
      exact ⟨_, priced_of hband hp h0⟩
    · exact ⟨none, priced_out hband⟩
  obtain ⟨found, hfound⟩ := mapM_ok_of_all hall
  rw [bestSide_eq, hfound]
  exact ⟨_, rfl⟩

/-- What an executing verdict says of its leg. -/
theorem executes_leg {v : Verdict} (hv : evaluate cfg snap = .ok v) (hshould : v.shouldExecute = true) :
    snap.odds.entries.isEmpty = false ∧ ∃ leg, bestSide cfg snap = .ok leg ∧ leg.1 ≠ "" ∧ v.side = leg.1 ∧
      v.odds = priceOf snap.odds leg.1 ∧ cfg.marginSlack < edge leg := by
  cases hq : snap.odds.entries.isEmpty with
  | true =>
    simp only [evaluate, hq, if_true, pure, Except.pure, Except.ok.injEq] at hv
    subst hv
    cases hshould
  | false =>
    rw [evaluate_eq hq] at hv
    cases hb : bestSide cfg snap with
    | error x => simp [hb, Except.map] at hv
    | ok leg =>
      simp only [hb, Except.map, Except.ok.injEq] at hv
      subst hv
      refine ⟨rfl, leg, rfl, ?_⟩
      by_cases hs : leg.1 = ""
      · simp [verdictOn, hs] at hshould
      · simp only [verdictOn, if_neg hs, decide_eq_true_eq] at hshould ⊢
        exact ⟨hs, trivial, trivial, by rw [edge]; linarith⟩

/-- Soundness and optimality: the side is an eligible leg of maximal edge, above the slack. -/
theorem executes_best (hmin : 0 < cfg.minOdds) {v : Verdict} (hv : evaluate cfg snap = .ok v)
    (hshould : v.shouldExecute = true) :
    v.odds = priceOf snap.odds v.side ∧ ∃ e, HasEdge cfg snap v.side e ∧ cfg.marginSlack < e ∧
      ∀ side f, HasEdge cfg snap side f → f ≤ e := by
  obtain ⟨-, leg, hbest, hs, hside, hodds, hedge⟩ := executes_leg hv hshould
  rcases bestSide_ok hbest with ⟨h, -⟩ | ⟨hmem, hpriced, hmax⟩
  · exact absurd h hs
  · obtain ⟨hband, -, hp, -, hi⟩ := priced_some hpriced
    rw [hside]
    refine ⟨hodds, edge leg, ⟨⟨hmem, hband⟩, leg.2.1, hp, by rw [edge, hi]⟩, hedge, ?_⟩
    intro side f hleg
    obtain ⟨⟨hin, hband'⟩, q, hq, rfl⟩ := hleg
    exact hmax side hin _ (priced_of hband' hq (hmin.trans_le hband'.1).ne')

/-- Completeness: an eligible leg with an edge above the slack is enough. -/
theorem executes_of_edge (hexact : cfg.exact = true) (hmin : 0 < cfg.minOdds) {side : String} {e : ℝ}
    (h : HasEdge cfg snap side e) (he : cfg.marginSlack < e) : ∃ v, evaluate cfg snap = .ok v ∧ v.shouldExecute = true := by
  obtain ⟨⟨hin, hband⟩, p, hp, rfl⟩ := h
  have hprice : 0 < priceOf snap.odds side := hmin.trans_le hband.1
  obtain ⟨leg, hbest⟩ := bestSide_exact hexact hmin (temperature_of_ok hp) snap
  rcases bestSide_ok hbest with ⟨-, hnone⟩ | ⟨hmem, -, hmax⟩
  · exact absurd hband (hnone side hin)
  · have hs : leg.1 ≠ "" := by
      rcases sides_named hmem with h | h | h <;> rw [h] <;> decide
    have hge := hmax side hin _ (priced_of hband hp hprice.ne')
    have hshould : leg.2.2 + cfg.marginSlack < leg.2.1 := by
      simp only [edge] at hge
      linarith
    refine ⟨verdictOn cfg snap leg, ?_, ?_⟩
    · obtain ⟨price, hget⟩ := quoted_of_price hprice.ne'
      rw [evaluate_eq (Table.isEmpty_of_get hget), hbest]
      rfl
    · simp [verdictOn, hs, hshould]

/-- Evaluate executes exactly when some eligible leg has an edge above the slack. -/
theorem executes_iff (hexact : cfg.exact = true) (hmin : 0 < cfg.minOdds) (snap : MomentumFrame) :
    (∃ v, evaluate cfg snap = .ok v ∧ v.shouldExecute = true) ↔
      ∃ side e, HasEdge cfg snap side e ∧ cfg.marginSlack < e := by
  constructor
  · intro h
    obtain ⟨v, hv, hshould⟩ := h
    obtain ⟨-, e, hedge, hslack, -⟩ := executes_best hmin hv hshould
    exact ⟨v.side, e, hedge, hslack⟩
  · intro h
    obtain ⟨side, e, hedge, hslack⟩ := h
    exact executes_of_edge hexact hmin hedge hslack

/-! ## The draw floor -/

def withoutDraw (snap : MomentumFrame) : MomentumFrame := { snap with odds := snap.odds.erase "draw" }

/-- An executed draw is priced at the floor at least, and a draw below the floor counts for
    nothing. -/
def RespectsFloor (cfg : FilterSettings) (snap : MomentumFrame) : Prop :=
  (∀ v, evaluate cfg snap = .ok v → v.shouldExecute = true → v.side = "draw" → cfg.minDrawOdds ≤ v.odds) ∧
    ∀ price, snap.odds.get? "draw" = some price → price < cfg.minDrawOdds →
      evaluate cfg snap = evaluate cfg (withoutDraw snap)

/-- The draw is quoted below the floor only next to another quote, and where the scan does
    not come to it, or treats it as it treats a missing one, or holds a leg that is not
    weaker. -/
def DrawPassedOver (cfg : FilterSettings) (snap : MomentumFrame) : Prop :=
  ∀ price, snap.odds.get? "draw" = some price → price < cfg.minDrawOdds →
    (∃ side, side ≠ "draw" ∧ (snap.odds.get? side).isSome = true) ∧
      ((∃ side ∈ ["home", "away"], ∃ x, priced cfg snap side = .error x) ∨
        priced cfg snap "draw" = priced cfg (withoutDraw snap) "draw" ∨
        (priced cfg (withoutDraw snap) "draw" = .ok none ∧ ∃ draw, priced cfg snap "draw" = .ok (some draw) ∧
          ∃ side ∈ ["home", "away"], ∃ leg, priced cfg snap side = .ok (some leg) ∧ edge draw ≤ edge leg))

theorem priceOf_withoutDraw {side : String} (h : side ≠ "draw") :
    priceOf (withoutDraw snap).odds side = priceOf snap.odds side := by
  simp [priceOf, withoutDraw, h]

theorem priced_withoutDraw {side : String} (h : side ≠ "draw") :
    priced cfg (withoutDraw snap) side = priced cfg snap side := by
  have hprice := @priceOf_withoutDraw snap side h
  have hprob : trueProbability cfg (withoutDraw snap) side = trueProbability cfg snap side := rfl
  have hband : InBand cfg (withoutDraw snap) side ↔ InBand cfg snap side := by rw [InBand, InBand, hprice]
  by_cases hin : InBand cfg snap side
  · rw [priced, priced, if_pos hin, if_pos (hband.mpr hin), hprice, hprob]
  · rw [priced_out hin, priced_out fun h => hin (hband.mp h)]

/-- A draw without a price is never chosen. -/
theorem priced_missing (leg : String × ℝ × ℝ) : priced cfg (withoutDraw snap) "draw" ≠ .ok (some leg) := by
  intro h
  obtain ⟨-, -, -, h0, -⟩ := priced_some h
  exact h0 (by simp [priceOf, withoutDraw])

/-- The scan of home and away, before it comes to the draw. -/
noncomputable def beforeDraw (cfg : FilterSettings) (snap : MomentumFrame) : Except Raised (Option (String × ℝ × ℝ)) :=
  (["home", "away"].mapM (priced cfg snap)).map fun found => found.reduceOption.foldl (keep edge) none

theorem beforeDraw_withoutDraw : beforeDraw cfg (withoutDraw snap) = beforeDraw cfg snap := by
  have h : ["home", "away"].mapM (priced cfg (withoutDraw snap)) = ["home", "away"].mapM (priced cfg snap) := by
    simp only [List.mapM_cons, List.mapM_nil]
    rw [priced_withoutDraw (by decide), priced_withoutDraw (by decide)]
  rw [beforeDraw, h, beforeDraw]

/-- With the draw enabled, the scan comes to it last. -/
theorem bestSide_draw (hdraw : cfg.selectDraw = true) :
    bestSide cfg snap = (do
      let best ← beforeDraw cfg snap
      let draw ← priced cfg snap "draw"
      return (draw.elim best (keep edge best)).getD ("", 0, 0)) := by
  have hsides : sides cfg = ["home", "away", "draw"] := by simp [sides, hdraw]
  rw [bestSide_eq, hsides, beforeDraw]
  simp only [List.mapM_cons, List.mapM_nil]
  cases priced cfg snap "home" with
  | error x => rfl
  | ok home =>
    cases priced cfg snap "away" with
    | error x => rfl
    | ok away =>
      cases priced cfg snap "draw" with
      | error x => rfl
      | ok draw => cases home <;> cases away <;> cases draw <;> rfl

theorem beforeDraw_error : (∃ side ∈ ["home", "away"], ∃ x, priced cfg snap side = .error x) ↔
    ∃ x, beforeDraw cfg snap = .error x := by
  constructor
  · intro h
    obtain ⟨side, hside, x, hx⟩ := h
    cases hm : ["home", "away"].mapM (priced cfg snap) with
    | error y => exact ⟨y, by rw [beforeDraw, hm]; rfl⟩
    | ok found =>
      obtain ⟨o, -, ho⟩ := (mapM_ok_mem hm).1 side hside
      rw [hx] at ho
      cases ho
  · intro h
    obtain ⟨x, hx⟩ := h
    by_contra hno
    have hall : ∀ side ∈ ["home", "away"], ∃ o, priced cfg snap side = .ok o := by
      intro side hside
      cases hp : priced cfg snap side with
      | error y => exact absurd ⟨side, hside, y, hp⟩ hno
      | ok o => exact ⟨o, rfl⟩
    obtain ⟨found, hfound⟩ := mapM_ok_of_all hall
    rw [beforeDraw, hfound] at hx
    cases hx

/-- The leg held before the draw is home or away, and none of them beats it. -/
theorem beforeDraw_ok {best : Option (String × ℝ × ℝ)} (h : beforeDraw cfg snap = .ok best) :
    (∀ b ∈ best, b.1 ∈ ["home", "away"] ∧ priced cfg snap b.1 = .ok (some b)) ∧
      ∀ side ∈ ["home", "away"], ∀ leg, priced cfg snap side = .ok (some leg) → ∃ b ∈ best, edge leg ≤ edge b := by
  cases hm : ["home", "away"].mapM (priced cfg snap) with
  | error x =>
    rw [beforeDraw, hm] at h
    cases h
  | ok found =>
    rw [beforeDraw, hm] at h
    simp only [Except.map, Except.ok.injEq] at h
    obtain ⟨hto, hfrom⟩ := mapM_ok_mem hm
    have hchampion := @champion_scan _ _ _ edge found.reduceOption
    rw [h] at hchampion
    refine ⟨fun b hb => ?_, fun side hside leg hleg => ?_⟩
    · obtain ⟨side, hside, hpriced⟩ := hfrom _ (List.reduceOption_mem_iff.mp (hchampion.mem b hb))
      obtain ⟨-, hname, -⟩ := priced_some hpriced
      rw [hname]
      exact ⟨hside, hpriced⟩
    · obtain ⟨o, ho, heq⟩ := hto side hside
      rw [hleg] at heq
      cases heq
      have hin : leg ∈ found.reduceOption := List.reduceOption_mem_iff.mpr ho
      obtain ⟨b, hb⟩ := Option.isSome_iff_exists.mp (hchampion.isSome (List.ne_nil_of_mem hin))
      exact ⟨b, hb, hchampion.unbeaten b hb leg hin⟩

theorem verdictOn_side (leg : String × ℝ × ℝ) : (verdictOn cfg snap leg).side = leg.1 := by
  unfold verdictOn
  split <;> rfl

theorem verdictOn_withoutDraw {leg : String × ℝ × ℝ} (h : leg.1 ≠ "draw") :
    verdictOn cfg (withoutDraw snap) leg = verdictOn cfg snap leg := by
  unfold verdictOn
  rw [priceOf_withoutDraw h]
  rfl

theorem beforeDraw_not_draw {best : Option (String × ℝ × ℝ)} (h : beforeDraw cfg snap = .ok best) :
    (best.getD ("", 0, 0)).1 ≠ "draw" := by
  cases best with
  | none => decide
  | some b =>
    have hside := ((beforeDraw_ok h).1 b rfl).1
    simp only [List.mem_cons, List.not_mem_nil, or_false] at hside
    rw [Option.getD_some]
    rcases hside with hs | hs <;> rw [hs] <;> decide

/-- A priced draw does not change the verdict exactly when home or away is no worse. -/
theorem keep_verdict_iff {best : Option (String × ℝ × ℝ)} (h : beforeDraw cfg snap = .ok best) {draw : String × ℝ × ℝ}
    (hname : draw.1 = "draw") :
    verdictOn cfg snap ((keep edge best draw).getD ("", 0, 0)) = verdictOn cfg snap (best.getD ("", 0, 0)) ↔
      ∃ side ∈ ["home", "away"], ∃ leg, priced cfg snap side = .ok (some leg) ∧ edge draw ≤ edge leg := by
  obtain ⟨hheld, hunbeaten⟩ := beforeDraw_ok h
  have hside := beforeDraw_not_draw h
  constructor
  · intro heq
    have hsame := congrArg Verdict.side heq
    rw [verdictOn_side, verdictOn_side] at hsame
    cases best with
    | none =>
      rw [keep, Option.getD_some, hname] at hsame
      exact absurd hsame.symm hside
    | some b =>
      rcases le_or_gt (edge draw) (edge b) with hle | hlt
      · exact ⟨b.1, (hheld b rfl).1, b, (hheld b rfl).2, hle⟩
      · rw [keep_lt hlt, Option.getD_some, hname] at hsame
        exact absurd hsame.symm hside
  · intro hbeaten
    obtain ⟨side, hin, leg, hleg, hle⟩ := hbeaten
    obtain ⟨b, hbest, hge⟩ := hunbeaten side hin leg hleg
    cases hbest
    rw [keep_le (hle.trans hge)]

/-- Next to another quote, the draw counts for nothing exactly when it is passed over. -/
theorem evaluate_withoutDraw_iff (hdraw : cfg.selectDraw = true) (hquoted : snap.odds.entries.isEmpty = false)
    (hother : (withoutDraw snap).odds.entries.isEmpty = false) :
    evaluate cfg snap = evaluate cfg (withoutDraw snap) ↔
      (∃ side ∈ ["home", "away"], ∃ x, priced cfg snap side = .error x) ∨
        priced cfg snap "draw" = priced cfg (withoutDraw snap) "draw" ∨
        (priced cfg (withoutDraw snap) "draw" = .ok none ∧ ∃ draw, priced cfg snap "draw" = .ok (some draw) ∧
          ∃ side ∈ ["home", "away"], ∃ leg, priced cfg snap side = .ok (some leg) ∧ edge draw ≤ edge leg) := by
  rw [evaluate_eq hquoted, evaluate_eq hother, bestSide_draw hdraw, bestSide_draw hdraw, beforeDraw_withoutDraw,
    beforeDraw_error]
  have hmissing := @priced_missing cfg snap
  cases hb : beforeDraw cfg snap with
  | error x => exact ⟨fun _ => Or.inl ⟨x, rfl⟩, fun _ => rfl⟩
  | ok best =>
    have hside := beforeDraw_not_draw hb
    cases hp : priced cfg snap "draw" with
    | error x =>
      cases hq : priced cfg (withoutDraw snap) "draw" with
      | error y => simp [bind, Except.bind, Except.map]
      | ok o => simp [bind, Except.bind, pure, Except.pure, Except.map]
    | ok o =>
      cases hq : priced cfg (withoutDraw snap) "draw" with
      | error y => simp [bind, Except.bind, pure, Except.pure, Except.map]
      | ok o' =>
        cases o' with
        | some leg => exact absurd hq (hmissing leg)
        | none =>
          cases o with
          | none => simp [bind, Except.bind, pure, Except.pure, Except.map, verdictOn_withoutDraw hside]
          | some draw =>
            -- the draw is in the scan once, and out of it once
            have hname : draw.1 = "draw" := (priced_some hp).2.1
            show (Except.ok (verdictOn cfg snap ((keep edge best draw).getD ("", 0, 0))) =
              Except.ok (verdictOn cfg (withoutDraw snap) (best.getD ("", 0, 0)))) ↔ _
            rw [verdictOn_withoutDraw hside, Except.ok.injEq, keep_verdict_iff hb hname]
            simp

theorem other_quoted_iff : (withoutDraw snap).odds.entries.isEmpty = false ↔
    ∃ side, side ≠ "draw" ∧ (snap.odds.get? side).isSome = true := by
  constructor
  · intro h
    cases he : (withoutDraw snap).odds.entries with
    | nil => simp [he] at h
    | cons x rest =>
      have hget := ((withoutDraw snap).odds.mem_iff x.1 x.2).mp (by rw [he]; exact List.mem_cons_self)
      rw [withoutDraw, Table.get?_erase] at hget
      split at hget
      · cases hget
      · rename_i hne
        exact ⟨x.1, hne, by rw [hget]; rfl⟩
  · intro h
    obtain ⟨side, hne, hsome⟩ := h
    obtain ⟨price, hprice⟩ := Option.isSome_iff_exists.mp hsome
    have hget : (withoutDraw snap).odds.get? side = some price := by simp [withoutDraw, hne, hprice]
    exact Table.isEmpty_of_get hget

/-- A map without quotes gets a verdict without a reason, any other one has a reason or a
    side. -/
theorem evaluate_ne_of_empty (hquoted : snap.odds.entries.isEmpty = false)
    (hempty : (withoutDraw snap).odds.entries.isEmpty = true) : evaluate cfg snap ≠ evaluate cfg (withoutDraw snap) := by
  rw [evaluate_eq hquoted, evaluate, if_pos hempty]
  intro h
  cases hb : bestSide cfg snap with
  | error x =>
    rw [hb] at h
    cases h
  | ok leg =>
    rw [hb] at h
    have hv := Except.ok.inj h
    by_cases hs : leg.1 = ""
    · have := congrArg Verdict.reasons hv
      simp [verdictOn, hs] at this
    · have := congrArg Verdict.side hv
      rw [verdictOn_side] at this
      exact hs this

/-- An executing verdict on the draw has the draw in its scan. -/
theorem priced_draw_of_executes {v : Verdict} (hv : evaluate cfg snap = .ok v) (hshould : v.shouldExecute = true)
    (hside : v.side = "draw") : v.odds = priceOf snap.odds "draw" ∧ ∃ leg, priced cfg snap "draw" = .ok (some leg) := by
  obtain ⟨-, leg, hbest, hs, hname, hodds, -⟩ := executes_leg hv hshould
  rw [hname] at hside
  rw [hside] at hodds
  rcases bestSide_ok hbest with ⟨h, -⟩ | ⟨-, hpriced, -⟩
  · exact absurd h hs
  · rw [hside] at hpriced
    exact ⟨hodds, leg, hpriced⟩

/-- With the draw enabled, the floor is respected exactly when a draw below it is passed
    over for another reason. -/
theorem draw_floor_iff (hdraw : cfg.selectDraw = true) (snap : MomentumFrame) :
    RespectsFloor cfg snap ↔ DrawPassedOver cfg snap := by
  constructor
  · intro h price hprice hlow
    obtain ⟨-, hsame⟩ := h
    have hquoted := Table.isEmpty_of_get hprice
    have heq := hsame price hprice hlow
    have hother : (withoutDraw snap).odds.entries.isEmpty = false := by
      by_contra hempty
      rw [Bool.not_eq_false] at hempty
      exact evaluate_ne_of_empty hquoted hempty heq
    exact ⟨other_quoted_iff.mp hother, (evaluate_withoutDraw_iff hdraw hquoted hother).mp heq⟩
  · intro hpassed
    have hsame : ∀ price, snap.odds.get? "draw" = some price → price < cfg.minDrawOdds →
        evaluate cfg snap = evaluate cfg (withoutDraw snap) := by
      intro price hprice hlow
      obtain ⟨hother, hcases⟩ := hpassed price hprice hlow
      exact (evaluate_withoutDraw_iff hdraw (Table.isEmpty_of_get hprice) (other_quoted_iff.mpr hother)).mpr hcases
    refine ⟨fun v hv hshould hside => ?_, hsame⟩
    obtain ⟨hodds, leg, hleg⟩ := priced_draw_of_executes hv hshould hside
    obtain ⟨-, -, -, h0, -⟩ := priced_some hleg
    rw [hodds]
    by_contra hlow
    rw [not_le] at hlow
    obtain ⟨price, hget⟩ := quoted_of_price h0
    have hprice : priceOf snap.odds "draw" = price := by simp [priceOf, hget]
    rw [hprice] at hlow
    rw [hsame price hget hlow] at hv
    obtain ⟨-, leg', hleg'⟩ := priced_draw_of_executes hv hshould hside
    exact priced_missing leg' hleg'

/-! ## A draw at six -/

/-- The default filter with the draw enabled. -/
def FilterSettings.drawing : FilterSettings := { FilterSettings.default with selectDraw := true }

/-- Only the draw is priced in the band. -/
def drawAt (price : ℚ) : MomentumFrame :=
  withFeatures Settings.default
    { evenMatch 1 1 with odds := ⟨[("home", 2), ("draw", price), ("away", 2)], by simp⟩, shotsTotal := 5, shotsOnTarget := 3 }

/-- A draw at its floor is no draw below it. -/
theorem a_draw_at_the_floor : RespectsFloor FilterSettings.drawing (drawAt 8) :=
  (draw_floor_iff rfl _).mpr fun price hprice hlow => by
    cases hprice
    exact absurd hlow (by decide +kernel)

theorem power_mono {a b : ℚ} (h : a ≤ b) : power b ≤ power a := by
  have hs : -(b : ℝ) ≤ -(a : ℝ) := by
    have : (a : ℝ) ≤ b := by exact_mod_cast h
    linarith
  exact Real.rpow_le_rpow_of_exponent_le (by norm_num) hs

theorem power_neg_nat (n : ℕ) : power (-(n : ℚ)) = (2.718281828459045 : ℝ) ^ n := by
  rw [power]
  push_cast
  rw [neg_neg, Real.rpow_natCast]

/-- A leg whose score lies between two whole numbers below zero. -/
theorem legProbability_le {side : String} (ht : cfg.temperature ≠ 0) {n : ℕ}
    (hlow : -3 ≤ rawScore cfg (scoreInputs snap side) / cfg.temperature)
    (hhigh : rawScore cfg (scoreInputs snap side) / cfg.temperature ≤ -(n : ℚ)) :
    ∃ p, legProbability cfg snap side = .ok p ∧ p ≤ 1 / (1 + (2.718281828459045 : ℝ) ^ n) := by
  have hge := power_mono hhigh
  rw [power_neg_nat] at hge
  have hle := power_mono hlow
  have hcube : power (-3) = (2.718281828459045 : ℝ) ^ 3 := by exact_mod_cast power_neg_nat 3
  have hlimit : (27 : ℝ) < floatLimit := by
    have : ((27 : ℕ) : ℝ) < floatLimit := Nat.cast_lt.mpr (by decide +kernel)
    exact_mod_cast this
  have hover : ¬ (cfg.exact = false ∧ floatLimit ≤ power (rawScore cfg (scoreInputs snap side) / cfg.temperature)) := by
    intro h
    obtain ⟨-, hover⟩ := h
    rw [hcube] at hle
    have : (2.718281828459045 : ℝ) ^ 3 ≤ 27 := by norm_num
    linarith
  have hleg : legProbability cfg snap side =
      .ok (min (1 / (1 + power (rawScore cfg (scoreInputs snap side) / cfg.temperature))) cfg.maxTrueProb) :=
    legProbability_eq_ok.mpr ⟨ht, hover, rfl⟩
  refine ⟨_, hleg, (min_le_left _ _).trans ?_⟩
  have hpos : (0 : ℝ) < 2.718281828459045 ^ n := by positivity
  exact one_div_le_one_div_of_le (by linarith) (by linarith)

/-- The default filter with the draw enabled bets on a draw at 6, below the floor of 8. -/
theorem drawAt_executes : ∃ v, evaluate FilterSettings.drawing (drawAt 6) = .ok v ∧ v.shouldExecute = true ∧
    v.side = "draw" ∧ v.odds = 6 := by
  obtain ⟨home, hhome, hhalf⟩ := @legProbability_le FilterSettings.drawing (drawAt 6) "home" (by decide +kernel) 0
    (by decide +kernel) (by decide +kernel)
  obtain ⟨away, haway, hfifth⟩ := @legProbability_le FilterSettings.drawing (drawAt 6) "away" (by decide +kernel) 2
    (by decide +kernel) (by decide +kernel)
  have hdraw := trueProbability_draw hhome haway
  have hcap : min (max 0 (1 - away - home)) ((FilterSettings.drawing.drawProbCap : ℚ) : ℝ) = 3 / 10 := by
    have h : ((FilterSettings.drawing.drawProbCap : ℚ) : ℝ) = 3 / 10 := by
      have : FilterSettings.drawing.drawProbCap = 3 / 10 := by decide +kernel
      rw [this]
      norm_num
    rw [h]
    refine min_eq_right (le_max_of_le_right ?_)
    norm_num at hhalf hfifth
    linarith
  rw [hcap] at hdraw
  have hleg : priced FilterSettings.drawing (drawAt 6) "draw" = .ok (some ("draw", 3 / 10, 1 / ((6 : ℚ) : ℝ))) :=
    priced_of (by decide +kernel) hdraw (by decide +kernel)
  have hbefore : beforeDraw FilterSettings.drawing (drawAt 6) = .ok none := by
    have hh := @priced_out FilterSettings.drawing (drawAt 6) "home" (by decide +kernel)
    have ha := @priced_out FilterSettings.drawing (drawAt 6) "away" (by decide +kernel)
    simp [beforeDraw, hh, ha, bind, Except.bind, pure, Except.pure, Except.map, List.reduceOption]
  have hbest : bestSide FilterSettings.drawing (drawAt 6) = .ok ("draw", 3 / 10, 1 / ((6 : ℚ) : ℝ)) := by
    rw [bestSide_draw rfl, hbefore, hleg]
    rfl
  have hslack : (1 / ((6 : ℚ) : ℝ)) + FilterSettings.drawing.marginSlack < 3 / 10 := by
    have : FilterSettings.drawing.marginSlack = 20 / 1000 := rfl
    rw [this]
    norm_num
  refine ⟨verdictOn FilterSettings.drawing (drawAt 6) ("draw", 3 / 10, 1 / ((6 : ℚ) : ℝ)), ?_, ?_, verdictOn_side _, ?_⟩
  · rw [evaluate_eq rfl, hbest]
    rfl
  · rw [verdictOn, if_neg (by decide)]
    exact decide_eq_true hslack
  · rw [verdictOn, if_neg (by decide)]
    decide +kernel

theorem a_draw_below_the_floor_executes : ¬ RespectsFloor FilterSettings.drawing (drawAt 6) := by
  intro h
  obtain ⟨v, hv, hshould, hside, hodds⟩ := drawAt_executes
  have hfloor := h.1 v hv hshould hside
  rw [hodds] at hfloor
  exact absurd hfloor (by decide +kernel)

end CasuyaLive.Analytics
