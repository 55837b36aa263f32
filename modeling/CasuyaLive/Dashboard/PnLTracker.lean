/-
  CasuyaLive.Dashboard.PnLTracker — the ledger's maximum drawdown (web-interface-js,
  frontend/src/components/PnLTracker.jsx: `maxDrawdown`).

  The ledger comes newest first. One walk from its end keeps the equity curve, its highest
  point and the largest drop from a highest point. The executor sends a `pnl` as a number, or
  as the text of the stream where it is none in Go. The arithmetic is exact, and an infinity
  counts as no number.

  `maxDrawdown_worst`: the walk's answer is the greatest of the falls from any point of the
  curve to a later one. The curve adds up the numbers of the entries from the oldest on, and
  0 for an entry without one.
-/

import CasuyaLive.Lib.Drawdown
import CasuyaLive.Lib.Numeral

namespace CasuyaLive.Dashboard

open CasuyaLive.Lib

/-- A field as `numericValue` of the executor sends it. -/
inductive Amount where
  | number (q : ℚ)
  | text (s : String)
  deriving DecidableEq

structure LedgerRow where
  pnl : Option Amount

/-- The walk's three variables. -/
structure Walk where
  peak : ℚ
  curve : ℚ
  dd : ℚ
  deriving DecidableEq

/-- `Number(value)`; none where it is not finite. -/
def number : Option Amount → Option ℚ
  | none => none
  | some (.number q) => some q
  | some (.text s) => Text.jsNumber s

/-- `Number(e.pnl) || 0`. -/
def pnlOf (e : LedgerRow) : ℚ := (number e.pnl).getD 0

/-- The loop's body. -/
def onRow (s : Walk) (e : LedgerRow) : Walk :=
  let curve := s.curve + pnlOf e
  let peak := if curve > s.peak then curve else s.peak
  let drop := peak - curve
  ⟨peak, curve, if drop > s.dd then drop else s.dd⟩

def maxDrawdown (entries : List LedgerRow) : ℚ :=
  -- `i` goes down from the last index
  (entries.reverse.foldl onRow ⟨0, 0, 0⟩).dd

/-! ## The walk -/

/-- What the walk knows of the amounts it has passed. -/
structure Walked (l : List ℚ) (s : Walk) : Prop where
  curve : s.curve = l.sum
  peak : IsGreatest (heights l) s.peak
  dd : IsGreatest (falls l) s.dd

theorem walked_nil : Walked [] ⟨0, 0, 0⟩ := ⟨rfl, highest_nil, worst_nil⟩

theorem larger_eq_max (old new : ℚ) : (if new > old then new else old) = max old new := (max_def_lt old new).symm

theorem onRow_walked {l : List ℚ} {s : Walk} (h : Walked l s) (e : LedgerRow) :
    Walked (l ++ [pnlOf e]) (onRow s e) := by
  have hcurve : s.curve + pnlOf e = l.sum + pnlOf e := by rw [h.curve]
  unfold onRow
  simp only [larger_eq_max, hcurve]
  refine ⟨?_, highest_concat h.peak _, worst_concat h.peak h.dd _⟩
  rw [List.sum_append, List.sum_singleton]

theorem walk_walked (rows : List LedgerRow) : ∀ {l : List ℚ} {s : Walk}, Walked l s →
    Walked (l ++ rows.map pnlOf) (rows.foldl onRow s) := by
  induction rows with
  | nil =>
    intro l s h
    rw [List.map_nil, List.append_nil]
    exact h
  | cons e rows ih =>
    intro l s h
    have hnext := ih (onRow_walked h e)
    rw [List.append_assoc, List.singleton_append] at hnext
    exact hnext

/-! ## The curve -/

/-- What an entry counts: its number, and 0 where it has none. -/
def counted : Option Amount → ℚ
  | some (.number q) => q
  | some (.text s) =>
    match Text.jsNumber s with
    | some q => q
    | none => 0
  | none => 0

/-- The sum of the `i` oldest entries. -/
def equityAt (entries : List LedgerRow) (i : ℕ) : ℚ := ((entries.reverse.take i).map fun e => counted e.pnl).sum

theorem pnlOf_eq (e : LedgerRow) : pnlOf e = counted e.pnl := by
  unfold pnlOf counted number
  cases e.pnl with
  | none => rfl
  | some x =>
    cases x with
    | number q => rfl
    | text s =>
      simp only
      cases Text.jsNumber s <;> rfl

/-- The worst fall of the equity curve, whatever the ledger. -/
theorem maxDrawdown_worst (entries : List LedgerRow) :
    IsGreatest { d | ∃ i j, i ≤ j ∧ j ≤ entries.length ∧ d = equityAt entries i - equityAt entries j }
      (maxDrawdown entries) := by
  have hlength : (entries.reverse.map pnlOf).length = entries.length := by
    rw [List.length_map, List.length_reverse]
  have hequity : ∀ i, equityAt entries i = equity (entries.reverse.map pnlOf) i := by
    intro i
    rw [equityAt, equity, ← List.map_take, funext pnlOf_eq]
  have hwalk := (walk_walked entries.reverse walked_nil).dd
  rw [List.nil_append] at hwalk
  simp only [hequity]
  rw [← hlength]
  exact hwalk

/-- Oldest last: 5, then 2 as a text, -8, no pnl, -1 and 4. -/
def sixBets : List LedgerRow :=
  [⟨some (.number 4)⟩, ⟨some (.number (-1))⟩, ⟨none⟩, ⟨some (.number (-8))⟩, ⟨some (.text " 2 ")⟩, ⟨some (.number 5)⟩]

/-- It falls by 9 after the second bet, and by no more. -/
theorem sixBets_fall : maxDrawdown sixBets = 9 ∧ equityAt sixBets 2 - equityAt sixBets 5 = 9 ∧
    ∀ i j, i ≤ j → j ≤ 6 → equityAt sixBets i - equityAt sixBets j ≤ 9 := by
  have hnine : maxDrawdown sixBets = 9 := by decide +kernel
  refine ⟨hnine, by decide +kernel, fun i j hij hj => ?_⟩
  rw [← hnine]
  exact (maxDrawdown_worst sixBets).2 ⟨i, j, hij, hj, rfl⟩

end CasuyaLive.Dashboard
