/-
  CasuyaLive.Lib.PairCount — comparing two lists pair by pair, and average ranks.

  `above s t` counts the pairs with the member of `s` above that of `t`, `level s t` the
  equal ones. `pairs_split`: a pair is above, level or below. The average rank of a score in
  a list (`rank`) is its place in the sorted list, equal scores sharing the mean of their
  places (`rank_of_block`). `rank_sum`: the ranks that a part of a list has in the whole are
  the ranks it has alone, one more for each pair it wins against the rest and a half for
  each tie.
-/

import Mathlib.Data.List.ProdSigma
import Mathlib.Data.List.Perm.Basic
import Mathlib.Algebra.Order.Field.Rat
import Mathlib.Algebra.BigOperators.Group.List.Basic
import Mathlib.Tactic.Linarith
import Mathlib.Tactic.Ring
import Mathlib.Tactic.FieldSimp

namespace CasuyaLive.Lib

variable {α : Type} [LinearOrder α]

def above (s t : List α) : ℕ := (s ×ˢ t).countP fun p => p.2 < p.1

def level (s t : List α) : ℕ := (s ×ˢ t).countP fun p => p.1 = p.2

def rank (l : List α) (a : α) : ℚ := l.countP (· < a) + (l.countP (· = a) + 1) / 2

/-! ## Pairs -/

@[simp] theorem above_nil (t : List α) : above [] t = 0 := rfl
@[simp] theorem level_nil (t : List α) : level [] t = 0 := rfl

@[simp] theorem above_cons (a : α) (s t : List α) : above (a :: s) t = t.countP (· < a) + above s t := by
  simp only [above, List.product_cons, List.countP_append, List.countP_map]
  rfl

@[simp] theorem level_cons (a : α) (s t : List α) : level (a :: s) t = t.countP (· = a) + level s t := by
  simp only [level, List.product_cons, List.countP_append, List.countP_map]
  congr 1
  refine List.countP_congr fun b _ => ?_
  simp [eq_comm]

theorem above_cons_right (s : List α) (b : α) (t : List α) : above s (b :: t) = s.countP (b < ·) + above s t := by
  induction s with
  | nil => rfl
  | cons a s ih =>
    simp only [above_cons, ih, List.countP_cons]
    omega

theorem above_nil_right (s : List α) : above s [] = 0 := by
  induction s with
  | nil => rfl
  | cons a s ih => simp [ih]

/-- Each score of a list is below, at or above another one. -/
theorem count_split (t : List α) (a : α) : t.countP (· < a) + t.countP (· = a) + t.countP (a < ·) = t.length := by
  induction t with
  | nil => rfl
  | cons b t ih =>
    simp only [List.countP_cons, List.length_cons]
    rcases lt_trichotomy b a with h | h | h
    · simp [h, h.ne, h.not_gt]
      omega
    · simp [h]
      omega
    · simp [h, h.ne', h.not_gt]
      omega

theorem pairs_split (s t : List α) : above s t + level s t + above t s = s.length * t.length := by
  induction s with
  | nil => simp [above_nil_right]
  | cons a s ih =>
    have hsplit := count_split t a
    simp only [above_cons, level_cons, above_cons_right, List.length_cons, Nat.add_mul, one_mul]
    omega

/-- Against itself a list wins as often as it loses. -/
theorem pairs_self (s : List α) : 2 * above s s + level s s = s.length * s.length := by
  have := pairs_split s s
  omega

theorem above_perm {s s' t t' : List α} (hs : s.Perm s') (ht : t.Perm t') : above s t = above s' t' :=
  (hs.product ht).countP_eq _

theorem level_perm {s s' t t' : List α} (hs : s.Perm s') (ht : t.Perm t') : level s t = level s' t' :=
  (hs.product ht).countP_eq _

/-! ## Ranks -/

theorem rank_perm {l m : List α} (h : l.Perm m) (a : α) : rank l a = rank m a := by
  rw [rank, rank, h.countP_eq, h.countP_eq]

/-- The ranks of one part of a list. -/
theorem rank_sum (s t : List α) :
    (s.map (rank (s ++ t))).sum = s.length * (s.length + 1) / 2 + above s t + level s t / 2 := by
  have hpart : ∀ u : List α, (u.map (rank (s ++ t))).sum =
      above u s + level u s / 2 + u.length / 2 + above u t + level u t / 2 := by
    intro u
    induction u with
    | nil => simp
    | cons a u ih =>
      rw [List.map_cons, List.sum_cons, ih, rank]
      simp only [List.countP_append, above_cons, level_cons, List.length_cons]
      push_cast
      ring
  have hself : (2 * above s s + level s s : ℚ) = s.length * s.length := by exact_mod_cast pairs_self s
  rw [hpart]
  linarith

/-- In a list whose equal scores stand together, a block of them takes the mean of its first
    and its last place. -/
theorem rank_of_block {low ties high : List α} {a : α} (hlow : ∀ b ∈ low, b < a) (hties : ∀ b ∈ ties, b = a)
    (hhigh : ∀ b ∈ high, a < b) :
    rank (low ++ (ties ++ high)) a = low.length + (ties.length + 1) / 2 := by
  have hbelow : (low ++ (ties ++ high)).countP (· < a) = low.length := by
    have h₁ : low.countP (· < a) = low.length := List.countP_eq_length.mpr fun b hb => by simpa using hlow b hb
    have h₂ : ties.countP (· < a) = 0 := List.countP_eq_zero.mpr fun b hb => by simp [hties b hb]
    have h₃ : high.countP (· < a) = 0 := List.countP_eq_zero.mpr fun b hb => by simpa using (hhigh b hb).le
    rw [List.countP_append, List.countP_append, h₁, h₂, h₃]
    omega
  have hat : (low ++ (ties ++ high)).countP (· = a) = ties.length := by
    have h₁ : low.countP (· = a) = 0 := List.countP_eq_zero.mpr fun b hb => by simpa using (hlow b hb).ne
    have h₂ : ties.countP (· = a) = ties.length := List.countP_eq_length.mpr fun b hb => by simp [hties b hb]
    have h₃ : high.countP (· = a) = 0 := List.countP_eq_zero.mpr fun b hb => by simpa using (hhigh b hb).ne'
    rw [List.countP_append, List.countP_append, h₁, h₂, h₃]
    omega
  rw [rank, hbelow, hat]

end CasuyaLive.Lib
