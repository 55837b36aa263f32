/-
  CasuyaLive.Lib.Recency — lists that follow a log of entries, each entry by its last place
  in the log.

  `dedup` keeps the last of equal entries. A list follows the log when it is a part of the
  log's `dedup`, in that order. Dropping entries from the list keeps that (`Follows.part`),
  and so does logging a new one at the end of both (`Follows.push`); a list that follows
  the log is known from its entries alone (`Follows.eq_filter`).
-/

import Mathlib.Data.List.Dedup
import Mathlib.Data.List.Perm.Subperm

namespace CasuyaLive.Lib

variable {α : Type} [DecidableEq α]

def Follows (log l : List α) : Prop := l.Sublist log.dedup

/-- The last place of an entry logged anew is the end. -/
theorem dedup_concat (log : List α) (a : α) : (log ++ [a]).dedup = log.dedup.filter (· != a) ++ [a] := by
  induction log with
  | nil => rfl
  | cons b log ih =>
    rw [List.cons_append, List.dedup_cons, List.dedup_cons, ih]
    by_cases hb : b ∈ log
    · rw [if_pos (List.mem_append_left _ hb), if_pos hb]
    · rw [if_neg hb]
      by_cases hab : b = a
      · subst hab
        rw [if_pos (List.mem_append_right _ List.mem_cons_self), List.filter_cons_of_neg (by simp)]
      · rw [if_neg (by simp [hb, hab]), List.filter_cons_of_pos (by simpa using hab), List.cons_append]

namespace Follows

variable {log l : List α}

theorem nil (log : List α) : Follows log [] := List.nil_sublist _

theorem part {k : List α} (h : Follows log l) (hk : k.Sublist l) : Follows log k := hk.trans h

theorem push {a : α} (h : Follows log l) (ha : a ∉ l) : Follows (log ++ [a]) (l ++ [a]) := by
  have hl : l.filter (· != a) = l := by
    rw [List.filter_eq_self]
    intro b hb
    rw [bne_iff_ne]
    exact fun e => ha (e ▸ hb)
  rw [Follows, dedup_concat, ← hl]
  exact (h.filter _).append (List.Sublist.refl [a])

theorem eq_filter {p : α → Bool} (h : Follows log l) (hp : ∀ a, p a = true ↔ a ∈ l) : l = log.dedup.filter p := by
  have hl : l.filter p = l := List.filter_eq_self.mpr fun a ha => (hp a).mpr ha
  have hpart : l.Sublist (log.dedup.filter p) := hl ▸ h.filter p
  have hall : log.dedup.filter p ⊆ l := fun a ha => (hp a).mp (List.mem_filter.mp ha).2
  have hnodup : (log.dedup.filter p).Nodup := (List.nodup_dedup log).filter p
  exact hpart.eq_of_length_le (hnodup.subperm hall).length_le

end Follows

end CasuyaLive.Lib
