/-
  CasuyaLive.Lib.Run — runs of a step function over a list of events.

  `Meets step C s es`: every step of the run from `s` over `es` meets `C`, a condition on
  the state before the step and its event. `run_inv`: an invariant that every such step
  keeps holds at the end of the run; `run_always`: in every state the run passes through;
  `run_iff`: what a step keeps only when it meets `C` holds at the end only if all did
  (`always_iff`: in every state of the run). `run_congr`: step functions that agree on every
  step of a run give the same run; `meets_congr`: conditions that agree under an invariant
  are met by the same runs.

  `after` and `outputs` are the state and the outputs of a machine that answers each event
  with a list; an invariant may speak of both (`outputs_inv`), and two machines related step
  by step have equal outputs (`outputs_eq`).
-/

import Mathlib.Data.List.Infix

namespace CasuyaLive.Lib

variable {σ ε ω : Type}

def Meets (step : σ → ε → σ) (C : σ → ε → Prop) : σ → List ε → Prop
  | _, [] => True
  | s, e :: es => C s e ∧ Meets step C (step s e) es

instance decidableMeets (step : σ → ε → σ) (C : σ → ε → Prop) [∀ s e, Decidable (C s e)] :
    ∀ (s : σ) (es : List ε), Decidable (Meets step C s es)
  | _, [] => isTrue trivial
  | s, e :: es =>
    have := decidableMeets step C (step s e) es
    inferInstanceAs (Decidable (C s e ∧ Meets step C (step s e) es))

section Runs

variable {step : σ → ε → σ} {C : σ → ε → Prop}

theorem meets_append {es fs : List ε} : ∀ {s : σ}, Meets step C s (es ++ fs) ↔
    Meets step C s es ∧ Meets step C (es.foldl step s) fs := by
  induction es with
  | nil => intro s; simp [Meets]
  | cons e es ih => intro s; simp only [List.cons_append, Meets, List.foldl_cons, ih, and_assoc]

theorem meets_iff {s : σ} {es : List ε} :
    Meets step C s es ↔ ∀ pre e post, es = pre ++ e :: post → C (pre.foldl step s) e := by
  constructor
  · intro h pre e post hsplit
    subst hsplit
    exact (meets_append.mp h).2.1
  · intro h
    induction es generalizing s with
    | nil => trivial
    | cons e es ih =>
      refine ⟨h [] e es rfl, ih fun pre f post he => ?_⟩
      exact h (e :: pre) f post (by rw [he]; rfl)

/-- A run that fails the condition fails it at some step. -/
theorem not_meets_iff {s : σ} {es : List ε} :
    ¬ Meets step C s es ↔ ∃ pre e post, es = pre ++ e :: post ∧ ¬ C (pre.foldl step s) e := by
  rw [meets_iff]
  push Not
  rfl

theorem Meets.mono {D : σ → ε → Prop} (hCD : ∀ s e, C s e → D s e) :
    ∀ {es : List ε} {s : σ}, Meets step C s es → Meets step D s es := by
  intro es
  induction es with
  | nil => intro s h; trivial
  | cons e es ih => intro s h; exact ⟨hCD _ _ h.1, ih h.2⟩

/-- Two conditions that agree wherever an invariant holds, which every step that meets the
    first one keeps. -/
theorem meets_congr {D : σ → ε → Prop} (I : σ → Prop) (hCD : ∀ s e, I s → (C s e ↔ D s e))
    (hI : ∀ s e, I s → C s e → I (step s e)) : ∀ {es : List ε} {s : σ}, I s → (Meets step C s es ↔ Meets step D s es) := by
  intro es
  induction es with
  | nil => intro s _; exact Iff.rfl
  | cons e es ih =>
    intro s h
    constructor
    · intro hm
      exact ⟨(hCD s e h).mp hm.1, (ih (hI s e h hm.1)).mp hm.2⟩
    · intro hm
      have hc := (hCD s e h).mpr hm.1
      exact ⟨hc, (ih (hI s e h hc)).mpr hm.2⟩

/-- A condition on the events alone. -/
theorem meets_forall {P : ε → Prop} {es : List ε} : ∀ {s : σ}, Meets step (fun _ e => P e) s es ↔ ∀ e ∈ es, P e := by
  induction es with
  | nil => intro s; simp [Meets]
  | cons e es ih => intro s; simp only [Meets, ih, List.mem_cons, forall_eq_or_imp]

theorem meets_true (s : σ) (es : List ε) : Meets step (fun _ _ => True) s es := by
  induction es generalizing s with
  | nil => trivial
  | cons e es ih => exact ⟨trivial, ih _⟩

/-- What every step that meets the condition keeps, holds at the end of the run. -/
theorem run_inv (I : σ → Prop) (hstep : ∀ s e, I s → C s e → I (step s e)) :
    ∀ {es : List ε} {s : σ}, I s → Meets step C s es → I (es.foldl step s) := by
  intro es
  induction es with
  | nil => intro s h _; exact h
  | cons e es ih => intro s h hm; exact ih (hstep s e h hm.1) hm.2

/-- The same, in every state the run passes through. -/
theorem run_always (I : σ → Prop) (hstep : ∀ s e, I s → C s e → I (step s e)) {es : List ε} {s : σ} (h : I s)
    (hm : Meets step C s es) : ∀ pre, pre <+: es → I (pre.foldl step s) := by
  intro pre hpre
  obtain ⟨post, rfl⟩ := hpre
  exact run_inv I hstep h (meets_append.mp hm).1

/-- An invariant of every step, whatever the event. -/
theorem fold_inv (I : σ → Prop) (hstep : ∀ s e, I s → I (step s e)) (es : List ε) {s : σ} (h : I s) : I (es.foldl step s) :=
  run_inv I (fun s e hi _ => hstep s e hi) h (meets_true s es)

/-- Two step functions that agree on every step of the second one's run. -/
theorem run_congr {other : σ → ε → σ} (hstep : ∀ s e, C s e → step s e = other s e) : ∀ {es : List ε} {s : σ},
    Meets other C s es → es.foldl step s = es.foldl other s := by
  intro es
  induction es with
  | nil => intro s _; rfl
  | cons e es ih =>
    intro s h
    rw [List.foldl_cons, List.foldl_cons, hstep s e h.1]
    exact ih h.2

/-- A property that each step keeps exactly when it meets the condition. -/
theorem run_iff (step : σ → ε → σ) (C : σ → ε → Prop) (I Q : σ → Prop) : ∀ (es : List ε),
    (∀ s, ∀ e ∈ es, I s → I (step s e)) → (∀ s, ∀ e ∈ es, I s → (Q (step s e) ↔ Q s ∧ C s e)) →
    ∀ {s : σ}, I s → (Q (es.foldl step s) ↔ Q s ∧ Meets step C s es) := by
  intro es
  induction es with
  | nil => intro _ _ s _; simp [Meets]
  | cons e es ih =>
    intro hI hQ s hs
    have hs' := hI s e List.mem_cons_self hs
    rw [List.foldl_cons, ih (fun s f hf => hI s f (List.mem_cons_of_mem _ hf))
      (fun s f hf => hQ s f (List.mem_cons_of_mem _ hf)) hs', hQ s e List.mem_cons_self hs, and_assoc]
    rfl

/-- A property of every state of a run, when a step from a state that has it keeps it
    exactly when the step meets the condition. -/
theorem always_iff (step : σ → ε → σ) (C : σ → ε → Prop) (I Q : σ → Prop) (hI : ∀ s e, I s → I (step s e))
    (hQ : ∀ s e, I s → Q s → (Q (step s e) ↔ C s e)) : ∀ (es : List ε) {s : σ}, I s → Q s →
    ((∀ pre, pre <+: es → Q (pre.foldl step s)) ↔ Meets step C s es) := by
  intro es
  induction es with
  | nil =>
    intro s _ hq
    refine ⟨fun _ => trivial, fun _ pre hpre => ?_⟩
    rw [List.prefix_nil.mp hpre]
    exact hq
  | cons e es ih =>
    intro s hs hq
    constructor
    · intro h
      have h1 : Q (step s e) := h [e] ⟨es, rfl⟩
      refine ⟨(hQ s e hs hq).mp h1, (ih (hI s e hs) h1).mp fun pre hpre => ?_⟩
      exact h (e :: pre) (List.cons_prefix_cons.mpr ⟨rfl, hpre⟩)
    · intro h pre hpre
      obtain ⟨hc, hm⟩ := h
      have h1 := (hQ s e hs hq).mpr hc
      cases pre with
      | nil => exact hq
      | cons f pre =>
        obtain ⟨rfl, hrest⟩ := List.cons_prefix_cons.mp hpre
        exact (ih (hI s f hs) h1).mpr hm pre hrest

end Runs

/-! ## Machines with outputs -/

def after (m : σ → ε → σ × List ω) (s : σ) (es : List ε) : σ := es.foldl (fun s e => (m s e).1) s

def outputs (m : σ → ε → σ × List ω) : σ → List ε → List ω
  | _, [] => []
  | s, e :: es => (m s e).2 ++ outputs m (m s e).1 es

section Machines

variable (m : σ → ε → σ × List ω)

@[simp] theorem after_nil (s : σ) : after m s [] = s := rfl
@[simp] theorem after_cons (s : σ) (e : ε) (es : List ε) : after m s (e :: es) = after m (m s e).1 es := rfl
@[simp] theorem outputs_nil (s : σ) : outputs m s [] = [] := rfl
@[simp] theorem outputs_cons (s : σ) (e : ε) (es : List ε) :
    outputs m s (e :: es) = (m s e).2 ++ outputs m (m s e).1 es := rfl

theorem after_append (s : σ) (es fs : List ε) : after m s (es ++ fs) = after m (after m s es) fs :=
  List.foldl_append

theorem outputs_append : ∀ (es fs : List ε) (s : σ),
    outputs m s (es ++ fs) = outputs m s es ++ outputs m (after m s es) fs := by
  intro es
  induction es with
  | nil => intro fs s; rfl
  | cons e es ih => intro fs s; simp [ih]

/-- An invariant of the state and of the outputs so far. -/
theorem outputs_inv (I : List ω → σ → Prop) (hstep : ∀ log s e, I log s → I (log ++ (m s e).2) (m s e).1) :
    ∀ (es : List ε) {log : List ω} {s : σ}, I log s → I (log ++ outputs m s es) (after m s es) := by
  intro es
  induction es with
  | nil =>
    intro log s h
    rw [outputs_nil, List.append_nil]
    exact h
  | cons e es ih =>
    intro log s h
    have hnext := ih (hstep log s e h)
    rw [List.append_assoc] at hnext
    exact hnext

/-- Two machines whose states the events keep related answer alike. -/
theorem outputs_eq {τ : Type} {m} {n : τ → ε → τ × List ω} (R : σ → τ → Prop) : ∀ (es : List ε),
    (∀ s t, ∀ e ∈ es, R s t → (m s e).2 = (n t e).2 ∧ R (m s e).1 (n t e).1) →
    ∀ {s : σ} {t : τ}, R s t → outputs m s es = outputs n t es := by
  intro es
  induction es with
  | nil => intro _ s t _; rfl
  | cons e es ih =>
    intro hstep s t h
    obtain ⟨ho, hr⟩ := hstep s t e List.mem_cons_self h
    rw [outputs_cons, outputs_cons, ho, ih (fun s t f hf => hstep s t f (List.mem_cons_of_mem _ hf)) hr]

end Machines

end CasuyaLive.Lib
