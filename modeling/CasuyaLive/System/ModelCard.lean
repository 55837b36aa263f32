/-
  CasuyaLive.System.ModelCard — the model card the operators see (analytics-engine-py,
  scripts/calibrate.py and src/main.py; web-interface-js, backend/server.js: `handleStats`).

  Calibrations end, workers start and Redis forgets, in any order; a write may fail. The
  relay then reads the hash. `card_shows`: the card has the status of the last publication and
  the numbers of the last fit that was published, each weight beside its feature. The two
  need not belong together: after a run that was refused the card still has the fit of an
  earlier one (`a_refusal_keeps_the_weights`).
-/

import CasuyaLive.Calibration.ModelCard
import CasuyaLive.Relay.Stats

namespace CasuyaLive.System

open CasuyaLive.Lib CasuyaLive.Relay CasuyaLive.Calibration
open CasuyaLive.Analytics (round4)

/-- What the relay reads of it. -/
def storedCard (r : Redis) (pnl outcomes staleness : Table String String) : Stored := ⟨r.model, r.heartbeat, pnl, outcomes, staleness⟩

def featureNames : List Json.Parsed := featureCols.map fun c => .str (Json.ofString c)

section

variable (nums : Numbers Json.Lit) (repr : ℚ → String)

/-- The text of a number is read as the number, in a list of texts too. -/
structure Reads (q : ℚ) : Prop where
  value : number nums (repr q) = some q
  filled : repr q ≠ ""
  plain : ',' ∉ (repr q).toList

def floats (f : Fit) : List ℚ :=
  [f.bias, f.l2, f.trainAccuracy, f.trainBrier, f.valAccuracy, f.valBrier, f.valAuc, f.baselineLogloss, f.modelLogloss] ++
    f.weights

/-- Every number of the fit is read as it was written. -/
structure Readable (f : Fit) : Prop where
  float : ∀ q ∈ floats f, Reads nums repr q
  rows : ∀ n ≤ f.trainRows + f.valRows, number nums (Text.itoa n) = some (n : ℚ)

/-- The times are no empty texts, and an adopted fit is readable. -/
def Legible : CardEvent → Prop
  | .calibrated outcome savedAt now _ _ => savedAt ≠ "" ∧ now ≠ "" ∧ ∀ f, outcome.fit = some f → Readable nums repr f
  | .started _ _ => True
  | .lost => True
  | .beat => True

/-- The card shows the summary. -/
structure CardShows (c : Card) (s : Summary) : Prop where
  status : c.status = s.status.map (·.1)
  generatedAt : c.generatedAt = s.status.map (·.2)
  features : c.features = (s.status.map fun _ => featureNames).getD []
  rows : c.rows = s.fit.map fun f => ((f.trainRows + f.valRows : ℕ) : ℚ)
  trainRows : c.trainRows = s.fit.map fun f => (f.trainRows : ℚ)
  valRows : c.valRows = s.fit.map fun f => (f.valRows : ℚ)
  bias : c.bias = s.fit.map (·.bias)
  l2 : c.l2 = s.fit.map (·.l2)
  trainAccuracy : c.trainAccuracy = s.fit.map (·.trainAccuracy)
  trainBrier : c.trainBrier = s.fit.map (·.trainBrier)
  valAccuracy : c.valAccuracy = s.fit.map (·.valAccuracy)
  valBrier : c.valBrier = s.fit.map (·.valBrier)
  valAuc : c.valAuc = s.fit.map (·.valAuc)
  baselineLogloss : c.baselineLogloss = s.fit.map (·.baselineLogloss)
  modelLogloss : c.modelLogloss = s.fit.map (·.modelLogloss)
  weights : c.weights = (s.fit.map fun f => f.weights.map some).getD []
  weightNames : ∀ f, s.fit = some f → c.weightNames = featureNames.zip (f.weights.map some)

end

/-! ## The texts -/

/-- The units of a text. -/
def units : Json.Parsed → Option Json.Utf16
  | .str us => some us
  | _ => none

/-- The units of an array of texts. -/
def unitsOf : Json.Parsed → Option (List Json.Utf16)
  | .arr xs => xs.mapM units
  | _ => none

theorem unitsOf_eq {v : Json.Parsed} {uss : List Json.Utf16} (h : unitsOf v = some uss) : v = .arr (uss.map .str) := by
  have hall : ∀ (xs : List Json.Parsed) (uss : List Json.Utf16), xs.mapM units = some uss → xs = uss.map .str := by
    intro xs
    induction xs with
    | nil =>
      intro uss h
      cases h
      rfl
    | cons x xs ih =>
      intro uss h
      rw [List.mapM_cons] at h
      cases x with
      | str us =>
        simp only [units, Option.bind_eq_bind, Option.bind_some, Option.bind_eq_some_iff] at h
        obtain ⟨rest, hrest, hcons⟩ := h
        cases hcons
        rw [ih rest hrest]
        rfl
      | _ => cases h
  cases v with
  | arr xs => rw [hall xs uss h]
  | _ => cases h

theorem features_read : Json.parse featuresText.toList = some (.arr featureNames) := by
  have hunits : (Json.parse featuresText.toList).bind unitsOf = some (featureCols.map Json.ofString) := by decide +kernel
  obtain ⟨v, hv, hnames⟩ := Option.bind_eq_some_iff.mp hunits
  rw [hv, unitsOf_eq hnames, List.map_map]
  rfl

theorem unbracket_text (cs : List Char) : unbracket ('[' :: (cs ++ [']'])) = cs := by
  simp [unbracket]

variable {nums : Numbers Json.Lit} {repr : ℚ → String}

theorem weights_read {ws : List ℚ} (hne : ws ≠ []) (h : ∀ w ∈ ws, Reads nums repr w) (hround : ∀ w ∈ ws, round6 w = w)
    {model : Table String String} (hmodel : model.get? "weights" = some (weightsText repr ws)) :
    weightsOf nums model = ws.map some := by
  have hfilled : filled model "weights" = some (weightsText repr ws) := by
    rw [filled, hmodel]
    simp [weightsText, Option.filter]
  have hsame : (ws.map fun w => repr (round6 w)) = ws.map repr :=
    List.map_congr_left fun w hw => by rw [hround w hw]
  have hsplit : (joined ',' (ws.map repr)).splitOn ',' = (ws.map repr).map String.toList := by
    refine List.splitOn_intercalate ',' ?_ (by simpa using hne)
    intro cs hcs
    obtain ⟨t, ht, rfl⟩ := List.mem_map.mp hcs
    obtain ⟨w, hw, rfl⟩ := List.mem_map.mp ht
    exact (h w hw).plain
  have hkeep : ((ws.map repr).map String.toList).filter (!·.isEmpty) = (ws.map repr).map String.toList := by
    rw [List.filter_eq_self]
    intro cs hcs
    obtain ⟨t, ht, rfl⟩ := List.mem_map.mp hcs
    obtain ⟨w, hw, rfl⟩ := List.mem_map.mp ht
    have hne := (h w hw).filled
    simpa [String.toList_eq_nil_iff] using hne
  unfold weightsOf
  simp only [hfilled, weightsText, hsame, String.toList_ofList, unbracket_text, hsplit, hkeep]
  rw [List.map_map, List.map_map]
  refine List.map_congr_left fun w hw => ?_
  simp only [Function.comp_apply, String.ofList_toList]
  exact (h w hw).value

/-! ## The summary of a run -/

theorem round4_round4 (q : ℚ) : round4 (round4 q) = round4 q := by
  have hwhole : ∀ n : ℤ, round4 ((n : ℚ) / 10000) = n / 10000 := by
    intro n
    have hback : (n : ℚ) / 10000 * 10000 = n := by ring
    simp only [round4, hback, Int.floor_intCast, sub_self]
    norm_num
  rw [round4]
  exact hwhole _

theorem round6_round6 (q : ℚ) : round6 (round6 q) = round6 q := by
  have hback : 100 * (round4 (100 * q) / 100) = round4 (100 * q) := by ring
  rw [round6, round6, hback, round4_round4]

theorem outcome_rounded {outcome : Outcome} {f : Fit} (h : outcome.fit = some f) : ∀ w ∈ f.weights, round6 w = w := by
  cases outcome with
  | insufficient => cases h
  | refused => cases h
  | adopted g =>
    cases h
    intro w hw
    obtain ⟨v, -, rfl⟩ := List.mem_map.mp hw
    exact round6_round6 v

/-- A fit as it is published. -/
structure Proper (nums : Numbers Json.Lit) (repr : ℚ → String) (f : Fit) : Prop extends Readable nums repr f where
  rounded : ∀ w ∈ f.weights, round6 w = w

/-- What holds of a run's summary: fits and times are those of its events, and a fit has a
    status with it. -/
structure Grounded (nums : Numbers Json.Lit) (repr : ℚ → String) (s : Summary) : Prop where
  fit : ∀ f, s.fit = some f → Proper nums repr f
  file : ∀ x, s.file = some x → x.generatedAt ≠ "" ∧ Proper nums repr x.fit
  status : ∀ x, s.status = some x → x.1 ≠ "" ∧ x.2 ≠ ""
  together : s.fit.isSome = true → s.status.isSome = true

variable {s : Summary}

theorem Grounded.publish (h : Grounded nums repr s) {x : String × String} (hx : x.1 ≠ "" ∧ x.2 ≠ "") {fit : Option Fit}
    (hfit : ∀ f, fit = some f → Proper nums repr f) : Grounded nums repr (s.publish x fit) := by
  refine ⟨fun f hf => ?_, h.file, fun y hy => ?_, fun _ => rfl⟩
  · cases fit with
    | none => exact h.fit f hf
    | some g => exact hfit f hf
  · cases hy
    exact hx

theorem step_grounded (h : Grounded nums repr s) (e : CardEvent) (he : Legible nums repr e) : Grounded nums repr (s.step e) := by
  cases e with
  | beat => exact h
  | lost => exact ⟨fun _ hf => (by cases hf), h.file, fun _ hx => (by cases hx), fun hf => (by cases hf)⟩
  | started now publishes =>
    simp only [Summary.step]
    cases hfile : s.file with
    | none => exact h
    | some saved =>
      obtain ⟨htime, hfit⟩ := h.file saved hfile
      simp only
      split
      · exact h.publish ⟨by simp, htime⟩ fun f hf => by cases hf; exact hfit
      · exact h
  | calibrated outcome savedAt now saves publishes =>
    obtain ⟨hsaved, hnow, hreadable⟩ := he
    have hfit : ∀ f, outcome.fit = some f → Proper nums repr f := fun f hf => ⟨hreadable f hf, outcome_rounded hf⟩
    have hfile : Grounded nums repr { s with file := (savedOf outcome savedAt saves).or s.file } := by
      refine ⟨h.fit, fun x hx => ?_, h.status, h.together⟩
      cases hs : savedOf outcome savedAt saves with
      | none =>
        simp only [hs, Option.none_or] at hx
        exact h.file x hx
      | some y =>
        simp only [hs, Option.some_or] at hx
        cases hx
        unfold savedOf at hs
        split at hs
        · obtain ⟨f, hf, rfl⟩ := Option.map_eq_some_iff.mp hs
          exact ⟨hsaved, hfit f hf⟩
        · cases hs
    simp only [Summary.step]
    split
    · refine hfile.publish ⟨?_, hnow⟩ hfit
      cases outcome <;> simp [Outcome.status]
    · exact hfile

theorem unpublished_grounded : Grounded nums repr unpublished where
  fit := fun _ hf => by cases hf
  file := fun _ hx => by cases hx
  status := fun _ hx => by cases hx
  together := fun hf => by cases hf

theorem run_grounded (es : List CardEvent) (hes : ∀ e ∈ es, Legible nums repr e) : Grounded nums repr (unpublished.run es) := by
  have hmeets : Meets Summary.step (fun _ e => Legible nums repr e) unpublished es := meets_forall.mpr hes
  exact run_inv (Grounded nums repr) (fun _ e h he => step_grounded h e he) unpublished_grounded hmeets

/-! ## The card -/

variable {r : Redis}

theorem itoa_filled (n : Int) : Text.itoa n ≠ "" := by
  intro h
  have hread := Text.float_itoa n
  rw [h] at hread
  exact absurd hread (by simp [show Text.float "" = none by decide])

theorem fit_text (key : String) (text : Fit → String) (hr : Summed repr r s)
    (hkey : ∀ x y, lookup (statusFields x y) key = none) (htext : ∀ f, lookup (fitFields repr f) key = some (text f)) : r.model.get? key = s.fit.map text := by
  have hnone : (s.status.bind fun x => lookup (statusFields x.1 x.2) key) = none := by
    cases s.status with
    | none => rfl
    | some x => exact hkey x.1 x.2
  rw [hr.model, Summary.text, hnone, Option.none_or]
  cases s.fit with
  | none => rfl
  | some f => exact htext f

theorem status_text (key : String) (text : String × String → String) (hr : Summed repr r s)
    (hkey : ∀ f, lookup (fitFields repr f) key = none) (htext : ∀ x, lookup (statusFields x.1 x.2) key = some (text x)) : r.model.get? key = s.status.map text := by
  have hnone : (s.fit.bind fun f => lookup (fitFields repr f) key) = none := by
    cases s.fit with
    | none => rfl
    | some f => exact hkey f
  rw [hr.model, Summary.text, hnone, Option.or_none]
  cases s.status with
  | none => rfl
  | some x => exact htext x

theorem status_shown (key : String) (text : String × String → String) (hr : Summed repr r s)
    (hkey : ∀ f, lookup (fitFields repr f) key = none) (htext : ∀ x, lookup (statusFields x.1 x.2) key = some (text x)) (hfull : ∀ x, s.status = some x → text x ≠ "") :
    filled r.model key = s.status.map text := by
  rw [filled, status_text key text hr hkey htext]
  cases hx : s.status with
  | none => rfl
  | some x => simp [hfull x hx]

theorem float_shown {key : String} (hr : Summed repr r s) (hs : Grounded nums repr s) (hkey : ∀ x y, lookup (statusFields x y) key = none)
    {value : Fit → ℚ} (hin : ∀ f, value f ∈ floats f) (htext : ∀ f, lookup (fitFields repr f) key = some (repr (value f))) :
    numberIfDefined nums r.model key = s.fit.map value := by
  rw [numberIfDefined, fit_text key _ hr hkey htext]
  cases hf : s.fit with
  | none => rfl
  | some f => exact ((hs.fit f hf).float _ (hin f)).value

theorem count_shown {key : String} (hr : Summed repr r s) (hs : Grounded nums repr s) (hkey : ∀ x y, lookup (statusFields x y) key = none)
    {value : Fit → ℕ} (hle : ∀ f, value f ≤ f.trainRows + f.valRows)
    (htext : ∀ f, lookup (fitFields repr f) key = some (Text.itoa (value f))) :
    numberIfFilled nums r.model key = s.fit.map fun f => (value f : ℚ) := by
  rw [numberIfFilled, filled, fit_text key _ hr hkey htext]
  cases hf : s.fit with
  | none => rfl
  | some f =>
    rw [Option.map_some, Option.filter_some, if_pos (by simpa using itoa_filled (value f)), Option.bind_some, Option.map_some]
    exact (hs.fit f hf).rows _ (hle f)

theorem weights_shown (hr : Summed repr r s) (hs : Grounded nums repr s) :
    weightsOf nums r.model = (s.fit.map fun f => f.weights.map some).getD [] := by
  have htext := fit_text "weights" (fun f => weightsText repr f.weights) hr (fun _ _ => rfl) fun _ => rfl
  cases hf : s.fit with
  | none =>
    rw [hf] at htext
    simp [weightsOf, filled, htext]
  | some f =>
    rw [hf] at htext
    have hproper := hs.fit f hf
    have hne : f.weights ≠ [] := by
      intro hnil
      have hsized := f.sized
      rw [hnil] at hsized
      cases hsized
    exact weights_read hne (fun w hw => hproper.float w (List.mem_append_right _ hw)) hproper.rounded htext

theorem zipIdx_join {α β : Type} (xs : List α) (ys : List (Option β)) (h : ys.length = xs.length) :
    (xs.zipIdx.map fun x => (x.1, (ys[x.2]?).join)) = xs.zip ys := by
  refine List.ext_getElem (by simp [h]) fun i hi hi' => ?_
  have hy : i < ys.length := by
    rw [List.length_zip] at hi'
    omega
  simp [hy]

/-- The card has the status of the last publication and the numbers of the last fit
    published. -/
theorem card_shows (env : Env) (parseDate : String → Option Int) (now : Int) (pnl outcomes staleness : Table String String)
    (es : List CardEvent) (hes : ∀ e ∈ es, Legible nums repr e) :
    ∃ stats, handleStats nums parseDate env now (storedCard (blank.run repr es) pnl outcomes staleness) = some stats ∧
      CardShows stats.model (unpublished.run es) := by
  have hr := run_summed repr es
  have hs := run_grounded es hes
  generalize unpublished.run es = s at hr hs
  generalize blank.run repr es = r at hr
  have hfeatures : featuresOf r.model = some ((s.status.map fun _ => featureNames).getD []) := by
    have htext := status_text "features" (fun _ => featuresText) hr (fun _ => rfl) fun _ => rfl
    rw [featuresOf, filled, htext]
    cases s.status with
    | none => rfl
    | some x =>
      have hfull : (some featuresText).filter (· != "") = some featuresText := by decide
      simp only [Option.map_some, hfull, features_read, Option.getD_some]
  refine ⟨_, by rw [handleStats, storedCard, hfeatures]; rfl, ?_⟩
  have hweights := weights_shown hr hs
  exact {
    status := status_shown "status" (fun x => x.1) hr (fun _ => rfl) (fun _ => rfl) fun x hx => (hs.status x hx).1
    generatedAt :=
      status_shown "generated_at" (fun x => x.2) hr (fun _ => rfl) (fun _ => rfl) fun x hx => (hs.status x hx).2
    features := rfl
    rows := count_shown hr hs (fun _ _ => rfl) (fun f => by omega) fun f => by
      show some (Text.itoa _) = _
      push_cast
      rfl
    trainRows := count_shown hr hs (fun _ _ => rfl) (fun f => by omega) fun _ => rfl
    valRows := count_shown hr hs (fun _ _ => rfl) (fun f => by omega) fun _ => rfl
    bias := float_shown hr hs (fun _ _ => rfl) (fun f => by simp [floats]) fun _ => rfl
    l2 := float_shown hr hs (fun _ _ => rfl) (fun f => by simp [floats]) fun _ => rfl
    trainAccuracy := float_shown hr hs (fun _ _ => rfl) (fun f => by simp [floats]) fun _ => rfl
    trainBrier := float_shown hr hs (fun _ _ => rfl) (fun f => by simp [floats]) fun _ => rfl
    valAccuracy := float_shown hr hs (fun _ _ => rfl) (fun f => by simp [floats]) fun _ => rfl
    valBrier := float_shown hr hs (fun _ _ => rfl) (fun f => by simp [floats]) fun _ => rfl
    valAuc := float_shown hr hs (fun _ _ => rfl) (fun f => by simp [floats]) fun _ => rfl
    baselineLogloss := float_shown hr hs (fun _ _ => rfl) (fun f => by simp [floats]) fun _ => rfl
    modelLogloss := float_shown hr hs (fun _ _ => rfl) (fun f => by simp [floats]) fun _ => rfl
    weights := hweights
    weightNames := by
      intro f hf
      obtain ⟨x, hx⟩ := Option.isSome_iff_exists.mp (hs.together (by rw [hf]; rfl))
      have hsized : (f.weights.map some).length = featureNames.length := by
        rw [List.length_map, f.sized, featureNames, List.length_map]
      rw [hf] at hweights
      have hnames : (s.status.map fun _ => featureNames).getD [] = featureNames := by rw [hx]; rfl
      show (((s.status.map fun _ => featureNames).getD []).zipIdx.map fun y => (y.1, ((weightsOf nums r.model)[y.2]?).join)) = _
      rw [hnames, hweights]
      exact zipIdx_join featureNames (f.weights.map some) hsized }

/-! ## A refusal -/

/-- Whole numbers only, in their decimal texts. -/
def wholeNumbers : Numbers Json.Lit := ⟨fun _ => none, fun us => Text.float (Json.toText us), fun _ => .ok none⟩

def wholeText (q : ℚ) : String := Text.itoa q.num

theorem whole_number (n : Int) : number wholeNumbers (Text.itoa n) = some (n : ℚ) := by
  rw [number, if_neg (itoa_filled n), wholeNumbers]
  simp only [Json.toText_ofString, Text.float_itoa]
  rfl

theorem whole_reads (n : Int) : Reads wholeNumbers wholeText (n : ℚ) := by
  have htext : wholeText (n : ℚ) = Text.itoa n := by rw [wholeText, Rat.num_intCast]
  refine ⟨by rw [htext, whole_number], by rw [htext]; exact itoa_filled n, ?_⟩
  rw [htext]
  intro hcomma
  rcases Text.itoa_chars n ',' hcomma with h | h
  · exact absurd h (by decide)
  · exact absurd h (by decide)

def oneFit : Fit := ⟨120, 30, 1, [1, 0, -2, 3, 1], 0, 1, 0, 1, 0, 1, 1, 0, rfl⟩

theorem oneFit_readable : Readable wholeNumbers wholeText oneFit.rounded := by
  have hwhole : ∀ q ∈ floats oneFit.rounded, q.den = 1 := by decide +kernel
  refine ⟨fun q hq => ?_, fun n _ => by simpa using whole_number n⟩
  rw [← Rat.coe_int_num_of_den_eq_one (hwhole q hq)]
  exact whole_reads q.num

/-- A fit is adopted, the next one refused. -/
def refusedAfter : List CardEvent :=
  [.calibrated (.adopted oneFit) "2026-09-16T16:00:13+00:00" "2026-09-16T16:00:14+00:00" true true,
    .calibrated .refused "2026-09-17T16:00:13+00:00" "2026-09-17T16:00:14+00:00" true true]

theorem a_refusal_keeps_the_weights :
    ∃ stats, handleStats wholeNumbers (fun _ => none) ⟨"secret", none, none, none, none, none⟩ 0
        (storedCard (blank.run wholeText refusedAfter) Table.empty Table.empty Table.empty) = some stats ∧
      CardShows stats.model (unpublished.run refusedAfter) := by
  refine card_shows _ _ _ _ _ _ refusedAfter fun e he => ?_
  simp only [refusedAfter, List.mem_cons, List.not_mem_nil, or_false] at he
  rcases he with rfl | rfl
  · refine ⟨by decide, by decide, fun f hf => ?_⟩
    cases hf
    exact oneFit_readable
  · exact ⟨by decide, by decide, fun _ hf => (by cases hf)⟩

end CasuyaLive.System
