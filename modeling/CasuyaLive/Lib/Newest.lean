/-
  CasuyaLive.Lib.Newest — a bounded list, newest first, with one entry of each kind.

  `touch n` puts an entry in front, drops the entries of its kind and cuts the list at `n`.
  What is of a kind is up to `same`, which need not hold of an entry and itself: entries of
  no kind are all kept.

  `touch_take`: the list stays the first `n` of `newest log`, the last entry of each kind in
  the whole log (`mem_newest`). `newest_prepend`: older entries logged later go behind.
-/

import Mathlib.Data.List.Dedup
import Mathlib.Data.List.Induction

namespace CasuyaLive.Lib

variable {α : Type} (same : α → α → Bool)

def touch (n : Nat) (l : List α) (a : α) : List α := (a :: l.filter fun x => !same x a).take n

/-- The last entry of each kind, newest first. -/
def newest (log : List α) : List α := (log.pwFilter fun x y => ¬ same x y = true).reverse

/-- Entries of different kinds, the later ones on the left. -/
def Distinct (l : List α) : Prop := l.Pairwise fun x y => ¬ same y x = true

structure Kinds : Prop where
  symm : ∀ x y, same x y = true → same y x = true
  trans : ∀ x y z, same x y = true → same y z = true → same x z = true

/-- Of one kind are the entries of one id. -/
def sameBy {κ : Type} [DecidableEq κ] (id : α → Option κ) (x y : α) : Bool := (id x).isSome && id x == id y

theorem sameBy_kinds {κ : Type} [DecidableEq κ] (id : α → Option κ) : Kinds (sameBy id) := by
  refine ⟨fun x y h => ?_, fun x y z h k => ?_⟩
  · simp only [sameBy, Bool.and_eq_true, beq_iff_eq] at h ⊢
    exact ⟨h.2 ▸ h.1, h.2.symm⟩
  · simp only [sameBy, Bool.and_eq_true, beq_iff_eq] at h k ⊢
    exact ⟨h.1, h.2.trans k.2⟩

theorem newest_distinct (log : List α) : Distinct same (newest same log) := by
  rw [Distinct, newest, List.pairwise_reverse]
  exact List.pairwise_pwFilter log

variable {same}

theorem kept_iff (h : Kinds same) (a : α) (log : List α) :
    (∀ y ∈ log.pwFilter fun x y => ¬ same x y = true, ¬ same a y = true) ↔ ∀ y ∈ log, ¬ same a y = true := by
  refine List.forall_mem_pwFilter ?_ a log
  intro x y z hxz
  by_cases hxy : same x y = true
  · exact Or.inr fun hyz => hxz (h.trans x y z hxy hyz)
  · exact Or.inl hxy

/-- An entry logged anew comes first, and replaces the one of its kind. -/
theorem newest_concat (h : Kinds same) (log : List α) (a : α) :
    newest same (log ++ [a]) = a :: (newest same log).filter fun x => !same x a := by
  have hpw : (log ++ [a]).pwFilter (fun x y => ¬ same x y = true) =
      (log.pwFilter fun x y => ¬ same x y = true).filter (fun x => !same x a) ++ [a] := by
    induction log with
    | nil => rfl
    | cons b log ih =>
      rw [List.cons_append]
      by_cases hb : ∀ y ∈ log, ¬ same b y = true
      · have hkept := (kept_iff h b log).mpr hb
        by_cases hba : same b a = true
        · have hall : ¬ ∀ y ∈ log ++ [a], ¬ same b y = true := fun hy =>
            hy a (List.mem_append_right _ List.mem_cons_self) hba
          rw [List.pwFilter_cons_of_neg (mt (kept_iff h b _).mp hall), List.pwFilter_cons_of_pos hkept, ih,
            List.filter_cons_of_neg (by simp [hba])]
        · have hall : ∀ y ∈ log ++ [a], ¬ same b y = true := by
            intro y hy
            rcases List.mem_append.mp hy with hy | hy
            · exact hb y hy
            · rw [List.mem_singleton.mp hy]
              exact hba
          rw [List.pwFilter_cons_of_pos ((kept_iff h b _).mpr hall), List.pwFilter_cons_of_pos hkept, ih,
            List.filter_cons_of_pos (by simpa using hba), List.cons_append]
      · have hall : ¬ ∀ y ∈ log ++ [a], ¬ same b y = true := fun hy => hb fun y hm => hy y (List.mem_append_left _ hm)
        rw [List.pwFilter_cons_of_neg (mt (kept_iff h b _).mp hall),
          List.pwFilter_cons_of_neg (mt (kept_iff h b _).mp hb), ih]
  rw [newest, hpw, List.reverse_append, List.reverse_singleton, List.singleton_append, ← List.filter_reverse, newest]

/-- Of entries of different kinds a new one replaces one at most. -/
theorem filter_take (h : Kinds same) (a : α) {l : List α}
    (hl : Distinct same l) :
    ∀ n, ((l.take (n + 1)).filter fun x => !same x a).take n = (l.filter fun x => !same x a).take n := by
  induction l with
  | nil => intro n; rfl
  | cons b l ih =>
    intro n
    obtain ⟨hb, hl⟩ := List.pairwise_cons.mp hl
    rw [List.take_succ_cons]
    by_cases hba : same b a = true
    · have hrest : ∀ x ∈ l, (!same x a) = true := by
        intro x hx
        rw [Bool.not_eq_true', ← Bool.not_eq_true]
        exact fun hxa => hb x hx (h.trans x a b hxa (h.symm b a hba))
      rw [List.filter_cons_of_neg (by simp [hba]), List.filter_cons_of_neg (by simp [hba]), List.filter_eq_self.mpr hrest,
        List.filter_eq_self.mpr fun x hx => hrest x (List.mem_of_mem_take hx), List.take_take, Nat.min_self]
    · rw [List.filter_cons_of_pos (by simpa using hba), List.filter_cons_of_pos (by simpa using hba)]
      cases n with
      | zero => rfl
      | succ n => rw [List.take_succ_cons, List.take_succ_cons, ih hl n]

/-- The list stays the first of all the newest entries. -/
theorem touch_take (h : Kinds same) (n : Nat) (log : List α) (a : α) :
    touch same n ((newest same log).take n) a = (newest same (log ++ [a])).take n := by
  rw [touch, newest_concat h]
  cases n with
  | zero => rfl
  | succ n =>
    rw [List.take_succ_cons, List.take_succ_cons, filter_take h a (newest_distinct same log) n]

theorem any_newest (h : Kinds same) (a : α) (log : List α) : (newest same log).any (same a) = log.any (same a) := by
  have hkept := kept_iff h a log
  rw [Bool.eq_iff_iff, List.any_eq_true, List.any_eq_true, newest]
  simp only [List.mem_reverse]
  refine ⟨fun ⟨x, hx, hs⟩ => ?_, fun ⟨x, hx, hs⟩ => ?_⟩
  · by_contra hn
    exact hkept.mpr (fun y hy hy' => hn ⟨y, hy, hy'⟩) x hx hs
  · by_contra hn
    exact hkept.mp (fun y hy hy' => hn ⟨y, hy, hy'⟩) x hx hs

theorem newest_map {β : Type} (f : β → α) (log : List β) :
    newest same (log.map f) = (newest (fun x y => same (f x) (f y)) log).map f := by
  rw [newest, newest, List.pwFilter_map, List.map_reverse]

/-- Older entries of other kinds go behind. -/
theorem newest_prepend (h : Kinds same) (log : List α) {l : List α} (hl : Distinct same l.reverse) :
    newest same (l ++ log) = newest same log ++ (l.filter fun a => !log.any (same a)).reverse := by
  induction l with
  | nil => simp
  | cons a l ih =>
    rw [Distinct, List.pairwise_reverse, List.pairwise_cons] at hl
    have hrest := ih (by rw [Distinct, List.pairwise_reverse]; exact hl.2)
    have hlog : (log.any (same a)) = true ↔ ¬ ∀ y ∈ l ++ log, ¬ same a y = true := by
      rw [List.any_eq_true, not_forall]
      refine ⟨fun ⟨y, hy, hs⟩ => ⟨y, fun hn => hn (List.mem_append_right _ hy) hs⟩, fun ⟨y, hn⟩ => ?_⟩
      obtain ⟨hy, hs⟩ := Classical.not_imp.mp hn
      rw [not_not] at hs
      rcases List.mem_append.mp hy with hy | hy
      · exact absurd hs (hl.1 y hy)
      · exact ⟨y, hy, hs⟩
    unfold newest at hrest ⊢
    rw [List.cons_append]
    by_cases ha : log.any (same a) = true
    · rw [List.pwFilter_cons_of_neg (mt (kept_iff h a _).mp (hlog.mp ha)), hrest, List.filter_cons_of_neg (by simp [ha])]
    · have hall : ∀ y ∈ l ++ log, ¬ same a y = true := by
        by_contra hn
        exact ha (hlog.mpr hn)
      rw [List.pwFilter_cons_of_pos ((kept_iff h a _).mpr hall), List.reverse_cons, hrest,
        List.filter_cons_of_pos (by simpa using ha), List.reverse_cons, List.append_assoc]

/-- The entries are those that none of their kind follows. -/
theorem mem_newest (h : Kinds same) {log : List α} {a : α} :
    a ∈ newest same log ↔ ∃ pre post, log = pre ++ a :: post ∧ ∀ y ∈ post, ¬ same a y = true := by
  rw [newest, List.mem_reverse]
  induction log with
  | nil => simp
  | cons b log ih =>
    by_cases hb : ∀ y ∈ log, ¬ same b y = true
    · rw [List.pwFilter_cons_of_pos ((kept_iff h b log).mpr hb), List.mem_cons, ih]
      refine ⟨?_, ?_⟩
      · rintro (rfl | ⟨pre, post, rfl, hpost⟩)
        · exact ⟨[], log, rfl, hb⟩
        · exact ⟨b :: pre, post, rfl, hpost⟩
      · rintro ⟨pre, post, hlog, hpost⟩
        cases pre with
        | nil => exact Or.inl (List.cons.inj hlog).1.symm
        | cons c pre => exact Or.inr ⟨pre, post, (List.cons.inj hlog).2, hpost⟩
    · rw [List.pwFilter_cons_of_neg (mt (kept_iff h b log).mp hb), ih]
      refine ⟨fun ⟨pre, post, hlog, hpost⟩ => ⟨b :: pre, post, by rw [hlog]; rfl, hpost⟩, ?_⟩
      rintro ⟨pre, post, hlog, hpost⟩
      cases pre with
      | nil =>
        obtain ⟨rfl, rfl⟩ := List.cons.inj hlog
        exact absurd hpost hb
      | cons c pre => exact ⟨pre, post, (List.cons.inj hlog).2, hpost⟩

end CasuyaLive.Lib
