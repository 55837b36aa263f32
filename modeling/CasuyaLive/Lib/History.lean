/-
  CasuyaLive.Lib.History — properties of a log that only grows.

  `Each P l`: every element of `l` has `P` of what stands before it and of itself.
  `each_append`: what is appended has it of the log it is appended to. `last_or_none`: the
  last element of a kind.
-/

import Mathlib.Data.List.Infix

namespace CasuyaLive.Lib

variable {α : Type}

def Each (P : List α → α → Prop) (l : List α) : Prop := ∀ pre x post, l = pre ++ x :: post → P pre x

section Each

variable {P Q : List α → α → Prop}

@[simp] theorem each_nil : Each P [] := by
  intro pre x post h
  simp at h

theorem each_cons {a : α} {l : List α} : Each P (a :: l) ↔ P [] a ∧ Each (fun pre => P (a :: pre)) l := by
  constructor
  · intro h
    refine ⟨h [] a l rfl, fun pre x post e => ?_⟩
    exact h (a :: pre) x post (by rw [e]; rfl)
  · intro h pre x post e
    obtain ⟨ha, hl⟩ := h
    cases pre with
    | nil =>
      simp only [List.nil_append, List.cons.injEq] at e
      rw [← e.1]
      exact ha
    | cons b pre =>
      simp only [List.cons_append, List.cons.injEq] at e
      rw [← e.1]
      exact hl pre x post e.2

theorem each_append {l m : List α} : Each P (l ++ m) ↔ Each P l ∧ Each (fun pre => P (l ++ pre)) m := by
  induction l generalizing P with
  | nil => simp
  | cons a l ih => simp only [List.cons_append, each_cons, ih, and_assoc]

theorem each_concat {l : List α} {a : α} : Each P (l ++ [a]) ↔ Each P l ∧ P l a := by
  simp only [each_append, each_cons, each_nil, List.append_nil, and_true]

theorem Each.mono {l : List α} (hPQ : ∀ pre x, x ∈ l → P pre x → Q pre x) (h : Each P l) : Each Q l := by
  intro pre x post e
  exact hPQ pre x (by rw [e]; simp) (h pre x post e)

theorem Each.left {l m : List α} (h : Each P (l ++ m)) : Each P l := (each_append.mp h).1

theorem Each.mem {l : List α} (h : Each P l) {x : α} (hx : x ∈ l) : ∃ pre post, l = pre ++ x :: post ∧ P pre x := by
  obtain ⟨pre, post, e⟩ := List.append_of_mem hx
  exact ⟨pre, post, e, h pre x post e⟩

/-- Elements of a kind that never follow one another: at most one. -/
theorem Each.at_most_one {p : α → Bool} {l : List α} (h : Each (fun pre x => p x = true → ∀ y ∈ pre, p y = false) l) :
    (l.filter p).length ≤ 1 := by
  induction l using List.reverseRecOn with
  | nil => simp
  | append_singleton l x ih =>
    rw [List.filter_append, List.length_append]
    by_cases hx : p x = true
    · have hl : l.filter p = [] := by
        rw [List.filter_eq_nil_iff]
        intro y hy
        simp [h l x [] rfl hx y hy]
      simp [hl, hx]
    · have := ih h.left
      simpa [hx] using this

/-- Nothing in the list has the property, or there is a last element that has it. -/
theorem last_or_none (P : List α → α → Prop) (l : List α) : Each (fun pre x => ¬ P pre x) l ∨
    ∃ pre x post, l = pre ++ x :: post ∧ P pre x ∧ Each (fun mid y => ¬ P (pre ++ x :: mid) y) post := by
  induction l generalizing P with
  | nil => exact Or.inl each_nil
  | cons a l ih =>
    rcases ih (fun pre => P (a :: pre)) with h | ⟨pre, x, post, rfl, hx, hpost⟩
    · by_cases ha : P [] a
      · exact Or.inr ⟨[], a, l, rfl, ha, h⟩
      · exact Or.inl (each_cons.mpr ⟨ha, h⟩)
    · exact Or.inr ⟨a :: pre, x, post, rfl, hx, hpost⟩

instance decidableEach : ∀ (P : List α → α → Prop) [∀ pre x, Decidable (P pre x)] (l : List α), Decidable (Each P l)
  | _, _, [] => isTrue each_nil
  | P, _, a :: l =>
    have := decidableEach (fun pre => P (a :: pre)) l
    decidable_of_iff _ each_cons.symm

end Each

end CasuyaLive.Lib
