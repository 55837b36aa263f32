/-
  CasuyaLive.Lib.Median — the middle of a list of values.

  The middle of an odd number of values is the one in the middle of them in order, that of
  an even number a mean of the two there. A value is `Central` when it lies in every
  range, bounded or not, that more than half of the values lie in: a minority, however far
  off, does not move it out of where the majority is. The middle is central
  (`median_central`).
-/

import Mathlib.Data.List.Sort
import Mathlib.Tactic.Linarith

namespace CasuyaLive.Lib

section Order

variable {α : Type} [LinearOrder α]

/-- `p` lies in every range that more than half of `v` lies in. -/
structure Central (v : List α) (p : α) : Prop where
  above : ∀ lo, v.length < 2 * v.countP (lo ≤ ·) → lo ≤ p
  below : ∀ hi, v.length < 2 * v.countP (· ≤ hi) → p ≤ hi

/-- In a list in order, what is below a bound at one place is so at every earlier place. -/
theorem countP_above_le {s : List α} (hs : s.Pairwise (· ≤ ·)) {i : Nat} (hi : i < s.length) {lo : α} (h : s[i] < lo) :
    s.countP (lo ≤ ·) + (i + 1) ≤ s.length := by
  have hfront : (s.take (i + 1)).countP (lo ≤ ·) = 0 := by
    rw [List.countP_eq_zero]
    intro x hx
    obtain ⟨j, hj, rfl⟩ := List.getElem_of_mem hx
    rw [List.length_take] at hj
    rw [List.getElem_take, decide_eq_true_eq, not_le]
    rcases Nat.lt_or_ge j i with hlt | hge
    · exact lt_of_le_of_lt (List.pairwise_iff_getElem.mp hs j i (by omega) hi hlt) h
    · have heq : j = i := by omega
      subst heq
      exact h
  have hback := List.countP_le_length (p := fun x => decide (lo ≤ x)) (l := s.drop (i + 1))
  rw [List.length_drop] at hback
  have hsplit : s.countP (lo ≤ ·) = (s.take (i + 1)).countP (lo ≤ ·) + (s.drop (i + 1)).countP (lo ≤ ·) := by
    rw [← List.countP_append, List.take_append_drop]
  omega

theorem countP_below_le {s : List α} (hs : s.Pairwise (· ≤ ·)) {i : Nat} (hi : i < s.length) {hi' : α} (h : hi' < s[i]) :
    s.countP (· ≤ hi') ≤ i := by
  have hback : (s.drop i).countP (· ≤ hi') = 0 := by
    rw [List.countP_eq_zero]
    intro x hx
    obtain ⟨j, hj, rfl⟩ := List.getElem_of_mem hx
    rw [List.length_drop] at hj
    rw [List.getElem_drop, decide_eq_true_eq, not_le]
    rcases Nat.eq_zero_or_pos j with hzero | hpos
    · subst hzero
      exact h
    · exact lt_of_lt_of_le h (List.pairwise_iff_getElem.mp hs i (i + j) hi (by omega) (by omega))
  have hfront := List.countP_le_length (p := fun x => decide (x ≤ hi')) (l := s.take i)
  rw [List.length_take] at hfront
  have hsplit : s.countP (· ≤ hi') = (s.take i).countP (· ≤ hi') + (s.drop i).countP (· ≤ hi') := by
    rw [← List.countP_append, List.take_append_drop]
  omega

/-- What lies between the two places in the middle of a list in order is central in it. -/
theorem central_of_middle {s : List α} (hs : s.Pairwise (· ≤ ·)) (hlen : s.length / 2 < s.length) {p : α}
    (hlow : s[(s.length - 1) / 2] ≤ p) (hhigh : p ≤ s[s.length / 2]) : Central s p := by
  refine ⟨fun lo hmost => ?_, fun hi hmost => ?_⟩
  · by_contra hp
    have hcount := countP_above_le hs (by omega) (lt_of_le_of_lt hlow (not_le.mp hp))
    omega
  · by_contra hp
    have hcount := countP_below_le hs hlen (lt_of_lt_of_le (not_le.mp hp) hhigh)
    omega

theorem Central.perm {v w : List α} (h : v.Perm w) {p : α} (hp : Central v p) : Central w p := by
  refine ⟨fun lo hmost => hp.above lo ?_, fun hi hmost => hp.below hi ?_⟩
  · rw [h.length_eq, h.countP_eq]
    exact hmost
  · rw [h.length_eq, h.countP_eq]
    exact hmost

end Order

section Middle

variable {α : Type} [LinearOrder α] [Zero α] (mean : α → α → α)

/-- The value in the middle of a list in order, or the mean of the two there. -/
def middle (s : List α) : α :=
  let mid := s.length / 2
  if s.length % 2 = 1 then s.getD mid 0 else mean (s.getD (mid - 1) 0) (s.getD mid 0)

/-- The middle of the values put in order; zero of none. -/
def median (v : List α) : α := middle mean (v.insertionSort (· ≤ ·))

variable {mean} (hmean : ∀ a b, a ≤ b → a ≤ mean a b ∧ mean a b ≤ b)
include hmean

theorem middle_central {s : List α} (hs : s.Pairwise (· ≤ ·)) (hpos : 0 < s.length) : Central s (middle mean s) := by
  have hmid : s.length / 2 < s.length := by omega
  have hlow : (s.length - 1) / 2 < s.length := by omega
  have hle : s[(s.length - 1) / 2] ≤ s[s.length / 2] := by
    rcases Nat.lt_or_ge ((s.length - 1) / 2) (s.length / 2) with hlt | hge
    · exact List.pairwise_iff_getElem.mp hs _ _ hlow hmid hlt
    · have hsame : (s.length - 1) / 2 = s.length / 2 := by omega
      simp only [hsame, le_refl]
  have hget : ∀ i (hi : i < s.length), s.getD i 0 = s[i] := fun i hi => by simp [List.getD, hi]
  rw [middle]
  simp only [hget _ hmid]
  split
  · have hsame : (s.length - 1) / 2 = s.length / 2 := by omega
    exact central_of_middle hs hmid (by simp only [hsame, le_refl]) (le_refl _)
  · have hsame : s.length / 2 - 1 = (s.length - 1) / 2 := by omega
    rw [hsame, hget _ hlow]
    obtain ⟨hge, hle⟩ := hmean _ _ hle
    exact central_of_middle hs hmid hge hle

theorem median_central {v : List α} (hv : v ≠ []) : Central v (median mean v) := by
  have hperm : (v.insertionSort (· ≤ ·)).Perm v := List.perm_insertionSort (· ≤ ·) v
  refine Central.perm hperm (middle_central hmean (List.pairwise_insertionSort (· ≤ ·) v) ?_)
  rw [hperm.length_eq]
  exact List.length_pos_iff.mpr hv

end Middle

end CasuyaLive.Lib
