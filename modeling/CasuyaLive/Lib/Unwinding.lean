/-
  CasuyaLive.Lib.Unwinding — what an observer learns from a run.

  `low e` is what the observer is told of an event, nothing when the event is hidden from
  it; `view s` is what it can tell of a state. `Unwinding`: a hidden event changes nothing
  in view, and an event it is told of acts on the view alone. `Unwinding.run`: two runs that
  tell it the same show it the same.
-/

import CasuyaLive.Lib.Run

namespace CasuyaLive.Lib

variable {σ ε κ τ : Type}

structure Unwinding (step : σ → ε → σ) (C : σ → ε → Prop) (low : ε → Option κ) (view : σ → τ) : Prop where
  hidden : ∀ s e, C s e → low e = none → view (step s e) = view s
  told : ∀ s t e f k, low e = some k → low f = some k → view s = view t → view (step s e) = view (step t f)

namespace Unwinding

variable {step : σ → ε → σ} {C : σ → ε → Prop} {low : ε → Option κ} {view : σ → τ}

theorem hidden_run (h : Unwinding step C low view) {es : List ε} : ∀ {s : σ}, Meets step C s es →
    (∀ e ∈ es, low e = none) → view (es.foldl step s) = view s := by
  induction es with
  | nil => intro s _ _; rfl
  | cons e es ih =>
    intro s hm hl
    rw [List.foldl_cons, ih hm.2 fun f hf => hl f (List.mem_cons_of_mem _ hf)]
    exact h.hidden s e hm.1 (hl e List.mem_cons_self)

theorem run (h : Unwinding step C low view) {es : List ε} : ∀ {fs : List ε} {s t : σ}, Meets step C s es →
    Meets step C t fs → es.filterMap low = fs.filterMap low → view s = view t →
    view (es.foldl step s) = view (fs.foldl step t) := by
  induction es with
  | nil =>
    intro fs s t _ hfs hlow hv
    rw [List.foldl_nil, h.hidden_run hfs (List.filterMap_eq_nil_iff.mp hlow.symm), hv]
  | cons e es ih =>
    intro fs s t hes hfs hlow hv
    cases he : low e with
    | none =>
      rw [List.filterMap_cons_none he] at hlow
      rw [List.foldl_cons]
      exact ih hes.2 hfs hlow ((h.hidden s e hes.1 he).trans hv)
    | some k =>
      -- the other run is told the same after some hidden events
      rw [List.filterMap_cons_some he] at hlow
      obtain ⟨pre, f, post, rfl, hpre, hf, hpost⟩ := List.filterMap_eq_cons_iff.mp hlow.symm
      obtain ⟨hmpre, hmf⟩ := meets_append.mp hfs
      rw [List.foldl_cons, List.foldl_append, List.foldl_cons]
      apply ih hes.2 hmf.2 hpost.symm
      exact h.told _ _ e f k he hf (hv.trans (h.hidden_run hmpre hpre).symm)

end Unwinding

end CasuyaLive.Lib
