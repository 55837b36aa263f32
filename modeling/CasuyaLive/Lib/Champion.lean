/-
  CasuyaLive.Lib.Champion — the running best of a scan.

  `keep` replaces the best so far only by a strictly better candidate. A scan ends with a
  candidate that none beats, or with none when there was no candidate (`champion_scan`): with
  the earliest of the best ones (`champion_first`).
-/

import Mathlib.Data.List.Induction
import Mathlib.Data.List.ReduceOption
import Mathlib.Order.Lattice

namespace CasuyaLive.Lib

variable {α β : Type} [LinearOrder β] (value : α → β)

/-- The earlier one keeps a tie. -/
def keep (best : Option α) (a : α) : Option α :=
  match best with
  | none => some a
  | some b => if value b < value a then some a else some b

/-- The best of the candidates seen. -/
structure Champion (seen : List α) (best : Option α) : Prop where
  isSome : seen ≠ [] → best.isSome = true
  mem : ∀ b ∈ best, b ∈ seen
  unbeaten : ∀ b ∈ best, ∀ a ∈ seen, value a ≤ value b

variable {value}

theorem keep_le {b a : α} (h : value a ≤ value b) : keep value (some b) a = some b := by
  rw [keep, if_neg (not_lt.mpr h)]

theorem keep_lt {b a : α} (h : value b < value a) : keep value (some b) a = some a := by
  rw [keep, if_pos h]

theorem champion_nil : Champion value [] none :=
  ⟨fun h => absurd rfl h, by simp, by simp⟩

theorem champion_step {seen : List α} {best : Option α} (h : Champion value seen best) (a : α) :
    Champion value (seen ++ [a]) (keep value best a) := by
  cases best with
  | none =>
    have hnone : seen = [] := by
      by_contra hne
      exact absurd (h.isSome hne) (by simp)
    subst hnone
    refine ⟨fun _ => rfl, ?_, ?_⟩
    · intro b hb
      cases hb
      exact List.mem_singleton_self a
    · intro b hb c hc
      cases hb
      rw [List.mem_singleton.mp hc]
  | some b =>
    have hseen := h.mem b rfl
    have hbest := h.unbeaten b rfl
    rcases lt_or_ge (value b) (value a) with hlt | hge
    · rw [keep_lt hlt]
      refine ⟨fun _ => rfl, ?_, ?_⟩
      · intro c hc
        cases hc
        exact List.mem_append_right _ (List.mem_singleton_self a)
      · intro c hc d hd
        cases hc
        rcases List.mem_append.mp hd with hd | hd
        · exact le_trans (hbest d hd) (le_of_lt hlt)
        · rw [List.mem_singleton.mp hd]
    · rw [keep_le hge]
      refine ⟨fun _ => rfl, ?_, ?_⟩
      · intro c hc
        cases hc
        exact List.mem_append_left _ hseen
      · intro c hc d hd
        cases hc
        rcases List.mem_append.mp hd with hd | hd
        · exact hbest d hd
        · rw [List.mem_singleton.mp hd]
          exact hge

theorem champion_foldl {seen : List α} {best : Option α} (h : Champion value seen best) (l : List α) :
    Champion value (seen ++ l) (l.foldl (keep value) best) := by
  induction l generalizing seen best with
  | nil => simpa using h
  | cons a l ih =>
    have hstep := ih (champion_step h a)
    rw [List.append_assoc] at hstep
    exact hstep

theorem champion_scan (l : List α) : Champion value l (l.foldl (keep value) none) := champion_foldl champion_nil l

/-- A scan without a champion had no candidate. -/
theorem champion_none {l : List α} (h : l.foldl (keep value) none = none) : l = [] := by
  have hscan : Champion value l (l.foldl (keep value) none) := champion_scan l
  by_contra hne
  exact absurd (hscan.isSome hne) (by simp [h])

/-- Every earlier candidate is weaker than the champion, no later one is stronger. -/
theorem champion_split (l : List α) : ∀ b, l.foldl (keep value) none = some b →
    ∃ pre post, l = pre ++ b :: post ∧ (∀ a ∈ pre, value a < value b) ∧ ∀ a ∈ post, value a ≤ value b := by
  induction l using List.reverseRecOn with
  | nil =>
    intro b h
    cases h
  | append_singleton l x ih =>
    intro b h
    rw [List.foldl_concat] at h
    have hscan : Champion value l (l.foldl (keep value) none) := champion_scan l
    cases hbest : l.foldl (keep value) none with
    | none =>
      rw [hbest] at h
      cases h
      exact ⟨[], [], by rw [champion_none hbest], by simp, by simp⟩
    | some c =>
      rw [hbest] at h
      rcases lt_or_ge (value c) (value x) with hlt | hge
      · rw [keep_lt hlt] at h
        cases h
        exact ⟨l, [], rfl, fun a ha => lt_of_le_of_lt (hscan.unbeaten c hbest a ha) hlt, by simp⟩
      · rw [keep_le hge] at h
        cases h
        obtain ⟨pre, post, hsplit, hpre, hpost⟩ := ih b hbest
        refine ⟨pre, post ++ [x], by rw [hsplit, List.append_assoc, List.cons_append], hpre, fun a ha => ?_⟩
        rcases List.mem_append.mp ha with ha | ha
        · exact hpost a ha
        · rw [List.mem_singleton.mp ha]
          exact hge

theorem champion_first (l : List α) :
    l.foldl (keep value) none = l.find? fun a => l.all fun b => decide (value b ≤ value a) := by
  have hscan : Champion value l (l.foldl (keep value) none) := champion_scan l
  cases hbest : l.foldl (keep value) none with
  | none =>
    rw [champion_none hbest]
    rfl
  | some b =>
    obtain ⟨pre, post, hsplit, hpre, -⟩ := champion_split l b hbest
    refine (List.find?_eq_some_iff_append.mpr ⟨?_, pre, post, hsplit, fun a ha => ?_⟩).symm
    · exact List.all_eq_true.mpr fun a ha => decide_eq_true (hscan.unbeaten b hbest a ha)
    · have hb : b ∈ l := hscan.mem b hbest
      rw [Bool.not_eq_true', List.all_eq_false]
      exact ⟨b, hb, by simpa using hpre a ha⟩

/-! ## Candidates that are computed on the way -/

section

variable {ε ι : Type} {f : ι → Except ε α} {l : List ι}

theorem mapM_ok_mem {found : List α} (h : l.mapM f = .ok found) :
    (∀ i ∈ l, ∃ a ∈ found, f i = .ok a) ∧ ∀ a ∈ found, ∃ i ∈ l, f i = .ok a := by
  induction l generalizing found with
  | nil =>
    cases h
    simp
  | cons i l ih =>
    rw [List.mapM_cons] at h
    cases hi : f i with
    | error x => simp [hi, bind, Except.bind] at h
    | ok a =>
      cases hl : l.mapM f with
      | error x => simp [hi, hl, bind, Except.bind] at h
      | ok rest =>
        simp only [hi, hl, bind, Except.bind, pure, Except.pure, Except.ok.injEq] at h
        subst h
        obtain ⟨hto, hfrom⟩ := ih hl
        refine ⟨fun j hj => ?_, fun b hb => ?_⟩
        · rcases List.mem_cons.mp hj with rfl | hj
          · exact ⟨a, List.mem_cons_self, hi⟩
          · obtain ⟨b, hb, hfb⟩ := hto j hj
            exact ⟨b, List.mem_cons_of_mem _ hb, hfb⟩
        · rcases List.mem_cons.mp hb with rfl | hb
          · exact ⟨i, List.mem_cons_self, hi⟩
          · obtain ⟨j, hj, hfj⟩ := hfrom b hb
            exact ⟨j, List.mem_cons_of_mem _ hj, hfj⟩

theorem mapM_ok_of_all (h : ∀ i ∈ l, ∃ a, f i = .ok a) : ∃ found, l.mapM f = .ok found := by
  induction l with
  | nil => exact ⟨[], rfl⟩
  | cons i l ih =>
    obtain ⟨a, ha⟩ := h i List.mem_cons_self
    obtain ⟨found, hfound⟩ := ih fun j hj => h j (List.mem_cons_of_mem _ hj)
    exact ⟨a :: found, by simp [List.mapM_cons, ha, hfound, bind, Except.bind, pure, Except.pure]⟩

/-- A scan raises where one of its candidates does, and keeps the best of them otherwise. -/
theorem foldlM_keep (candidate : ι → Except ε (Option α)) (l : List ι) (best : Option α) :
    l.foldlM (fun best i => (candidate i).map fun o => o.elim best (keep value best)) best =
      (l.mapM candidate).map fun found => found.reduceOption.foldl (keep value) best := by
  induction l generalizing best with
  | nil => rfl
  | cons i l ih =>
    rw [List.foldlM_cons, List.mapM_cons]
    cases hi : candidate i with
    | error x => rfl
    | ok o =>
      refine (ih (o.elim best (keep value best))).trans ?_
      cases hl : l.mapM candidate with
      | error x => rfl
      | ok found => cases o <;> rfl

end

end CasuyaLive.Lib
