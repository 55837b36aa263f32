/-
  CasuyaLive.Lib.Drawdown — the heights and the falls of a curve that starts at 0 and moves
  by given amounts.

  With one more amount there is one more height, the new end, and the new falls are those
  from any height down to it. So the highest point and the worst fall of a longer curve are
  known from those of the shorter one (`highest_concat`, `worst_concat`).
-/

import Mathlib.Algebra.BigOperators.Group.List.Basic
import Mathlib.Algebra.Order.Group.Defs
import Mathlib.Algebra.Order.Sub.Basic
import Mathlib.Order.Bounds.Image

namespace CasuyaLive.Lib

variable {K : Type} [AddCommGroup K] [LinearOrder K] [IsOrderedAddMonoid K]

/-- Where the curve stands after the first `i` amounts. -/
def equity (l : List K) (i : ℕ) : K := (l.take i).sum

def heights (l : List K) : Set K := { h | ∃ i, i ≤ l.length ∧ h = equity l i }

/-- From any point of the curve to a later one, or to itself. -/
def falls (l : List K) : Set K := { d | ∃ i j, i ≤ j ∧ j ≤ l.length ∧ d = equity l i - equity l j }

omit [LinearOrder K] [IsOrderedAddMonoid K] in
theorem equity_concat (l : List K) (x : K) {i : ℕ} (h : i ≤ l.length) : equity (l ++ [x]) i = equity l i := by
  rw [equity, List.take_append_of_le_length h, equity]

omit [LinearOrder K] [IsOrderedAddMonoid K] in
theorem equity_end (l : List K) (x : K) : equity (l ++ [x]) (l.length + 1) = l.sum + x := by
  rw [equity, List.take_of_length_le (by simp), List.sum_append, List.sum_singleton]

omit [LinearOrder K] [IsOrderedAddMonoid K] in
theorem heights_concat (l : List K) (x : K) : heights (l ++ [x]) = insert (l.sum + x) (heights l) := by
  ext h
  simp only [heights, Set.mem_ofPred_eq, Set.mem_insert_iff, List.length_append, List.length_singleton]
  refine ⟨fun hh => ?_, fun hh => ?_⟩
  · obtain ⟨i, hi, rfl⟩ := hh
    rcases Nat.lt_or_ge l.length i with hlast | hold
    · obtain rfl : i = l.length + 1 := by omega
      exact Or.inl (equity_end l x)
    · exact Or.inr ⟨i, hold, equity_concat l x hold⟩
  · rcases hh with rfl | ⟨i, hi, rfl⟩
    · exact ⟨l.length + 1, le_refl _, (equity_end l x).symm⟩
    · exact ⟨i, by omega, (equity_concat l x hi).symm⟩

omit [LinearOrder K] [IsOrderedAddMonoid K] in
theorem falls_concat (l : List K) (x : K) :
    falls (l ++ [x]) = falls l ∪ (fun h => h - (l.sum + x)) '' heights (l ++ [x]) := by
  ext d
  simp only [falls, Set.mem_ofPred_eq, Set.mem_union, Set.mem_image, List.length_append, List.length_singleton]
  refine ⟨fun hd => ?_, fun hd => ?_⟩
  · obtain ⟨i, j, hij, hj, rfl⟩ := hd
    rcases Nat.lt_or_ge l.length j with hlast | hold
    · obtain rfl : j = l.length + 1 := by omega
      exact Or.inr ⟨equity (l ++ [x]) i, ⟨i, by simpa using hij, rfl⟩, by rw [equity_end]⟩
    · exact Or.inl ⟨i, j, hij, hold, by rw [equity_concat l x hold, equity_concat l x (by omega)]⟩
  · rcases hd with ⟨i, j, hij, hj, rfl⟩ | ⟨h, ⟨i, hi, rfl⟩, rfl⟩
    · exact ⟨i, j, hij, by omega, by rw [equity_concat l x hj, equity_concat l x (by omega)]⟩
    · exact ⟨i, l.length + 1, by simpa using hi, le_refl _, by rw [equity_end]⟩

omit [IsOrderedAddMonoid K] in
theorem highest_nil : IsGreatest (heights ([] : List K)) 0 := by
  refine ⟨⟨0, le_refl _, rfl⟩, fun h hh => ?_⟩
  obtain ⟨i, hi, rfl⟩ := hh
  simp [equity]

omit [IsOrderedAddMonoid K] in
theorem worst_nil : IsGreatest (falls ([] : List K)) 0 := by
  refine ⟨⟨0, 0, le_refl _, le_refl _, by simp⟩, fun d hd => ?_⟩
  obtain ⟨i, j, -, -, rfl⟩ := hd
  simp [equity]

omit [IsOrderedAddMonoid K] in
/-- The highest point is the old one or the new end. -/
theorem highest_concat {l : List K} {peak : K} (h : IsGreatest (heights l) peak) (x : K) :
    IsGreatest (heights (l ++ [x])) (max peak (l.sum + x)) := by
  rw [heights_concat, max_comm]
  exact h.insert _

/-- The worst fall is the old one or the one from the highest point to the new end. -/
theorem worst_concat {l : List K} {peak worst : K} (hp : IsGreatest (heights l) peak) (hw : IsGreatest (falls l) worst) (x : K) :
    IsGreatest (falls (l ++ [x])) (max worst (max peak (l.sum + x) - (l.sum + x))) := by
  have hmono : Monotone fun h : K => h - (l.sum + x) := fun a b hab => sub_le_sub_right hab _
  rw [falls_concat]
  exact hw.union (hmono.map_isGreatest (highest_concat hp x))

end CasuyaLive.Lib
