/-
  CasuyaLive.Calibration.ModelCard — what a calibration publishes of its fit, and what a
  worker publishes again (analytics-engine-py, scripts/calibrate.py: `main`,
  `_publish_model_hash`; src/main.py: `_mirror_model_hash_fields`, `_mirror_model_hash`).

  The hash is written with HSET, field by field over what it holds. A run without a fit that
  is adopted writes three fields and leaves those of an earlier one; a worker that starts
  writes all of them from the weights file, when there is one. Numbers are exact, and the
  file is the values its text stands for. `Summary` is what the hash amounts to: the status
  of the last publication and the fit of the last one that had a fit. `run_summed`: the hash
  holds the texts of its summary, and nothing else.
-/

import CasuyaLive.Lib.Json
import CasuyaLive.Lib.Run
import CasuyaLive.Lib.Table
import CasuyaLive.Analytics.Frame

namespace CasuyaLive.Calibration

open CasuyaLive.Lib CasuyaLive.Analytics

def featureCols : List String := ["divergence", "danger_intensity", "possession_gap", "shot_accuracy_gap", "behind_target"]

/-- Python's `round` to six digits. -/
def round6 (q : ℚ) : ℚ := round4 (100 * q) / 100

/-- A fit that is adopted, with its evaluation. -/
structure Fit where
  trainRows : Nat
  valRows : Nat
  bias : ℚ
  weights : List ℚ
  l2 : ℚ
  trainAccuracy : ℚ
  trainBrier : ℚ
  valAccuracy : ℚ
  valBrier : ℚ
  valAuc : ℚ
  baselineLogloss : ℚ
  modelLogloss : ℚ
  /-- A weight for each feature. -/
  sized : weights.length = featureCols.length

/-- The numbers as they are published, and saved. -/
def Fit.rounded (f : Fit) : Fit where
  trainRows := f.trainRows
  valRows := f.valRows
  bias := round6 f.bias
  weights := f.weights.map round6
  l2 := f.l2
  trainAccuracy := round4 f.trainAccuracy
  trainBrier := round4 f.trainBrier
  valAccuracy := round4 f.valAccuracy
  valBrier := round4 f.valBrier
  valAuc := round4 f.valAuc
  baselineLogloss := round4 f.baselineLogloss
  modelLogloss := round4 f.modelLogloss
  sized := by rw [List.length_map, f.sized]

/-- The three ends of a calibration. -/
inductive Outcome where
  | insufficient
  | refused
  | adopted (f : Fit)

def Outcome.status : Outcome → String
  | .insufficient => "insufficient"
  | .refused => "refused"
  | .adopted _ => "adopted"

/-- The fit as it is published and saved. -/
def Outcome.fit : Outcome → Option Fit
  | .insufficient => none
  | .refused => none
  | .adopted f => some f.rounded

/-- `json.dumps(list(FEATURE_COLS))`. -/
def featuresText : String :=
  "[\"divergence\", \"danger_intensity\", \"possession_gap\", \"shot_accuracy_gap\", \"behind_target\"]"

-- the text of a float
variable (repr : ℚ → String)

def joined (sep : Char) (texts : List String) : List Char := [sep].intercalate (texts.map String.toList)

def weightsText (weights : List ℚ) : String :=
  String.ofList ('[' :: (joined ',' (weights.map fun w => repr (round6 w)) ++ [']']))

/-- The fields of every publication. -/
def statusFields (status generatedAt : String) : List (String × String) :=
  [("status", status), ("generated_at", generatedAt), ("features", featuresText)]

/-- The fields of a fit; `rows` counts those of both parts. -/
def fitFields (f : Fit) : List (String × String) :=
  [("rows", Text.itoa (f.trainRows + f.valRows)), ("train_rows", Text.itoa f.trainRows), ("val_rows", Text.itoa f.valRows),
    ("bias", repr f.bias), ("l2", repr f.l2), ("train_accuracy", repr f.trainAccuracy), ("train_brier", repr f.trainBrier),
    ("val_accuracy", repr f.valAccuracy), ("val_brier", repr f.valBrier), ("val_auc", repr f.valAuc),
    ("baseline_logloss", repr f.baselineLogloss), ("model_logloss", repr f.modelLogloss),
    ("weights", weightsText repr f.weights)]

/-- HSET of a mapping. -/
def hset (hash : Table String String) (mapping : List (String × String)) : Table String String :=
  mapping.foldl (fun t x => t.set x.1 x.2) hash

/-- The weights file. -/
structure Saved where
  generatedAt : String
  fit : Fit

structure Redis where
  model : Table String String
  heartbeat : Option String
  file : Option Saved

def blank : Redis := ⟨Table.empty, none, none⟩

def publishModelHash (r : Redis) (status now : String) (fit : Option Fit) : Redis :=
  let mapping := statusFields status now ++ (fit.map (fitFields repr)).getD []
  { r with model := hset r.model mapping, heartbeat := some now }

inductive CardEvent where
  /-- The end of a calibration: when it wrote the file and when it published, and whether each
      of the two succeeded. -/
  | calibrated (outcome : Outcome) (savedAt now : String) (saves publishes : Bool)
  /-- A worker starts; whether it reaches Redis. -/
  | started (now : String) (publishes : Bool)
  /-- The hash is gone: its seven days are over, or Redis restarted. -/
  | lost
  /-- The heartbeat's hour is over. -/
  | beat

/-- What a calibration writes to the file, if anything. -/
def savedOf (outcome : Outcome) (savedAt : String) (saves : Bool) : Option Saved :=
  if saves then outcome.fit.map (Saved.mk savedAt) else none

/-- `main`'s end: the file of an adopted fit, then the hash. -/
def onCalibrated (r : Redis) (outcome : Outcome) (savedAt now : String) (saves publishes : Bool) : Redis :=
  let r := { r with file := (savedOf outcome savedAt saves).or r.file }
  if publishes then publishModelHash repr r outcome.status now outcome.fit else r

/-- `_mirror_model_hash`: all the fields again, from the file. -/
def onStarted (r : Redis) (now : String) (publishes : Bool) : Redis :=
  match r.file with
  | none => r
  | some saved =>
    if publishes then
      { r with model := hset r.model (statusFields "adopted" saved.generatedAt ++ fitFields repr saved.fit), heartbeat := some now }
    else r

def Redis.step (r : Redis) : CardEvent → Redis
  | .calibrated outcome savedAt now saves publishes => onCalibrated repr r outcome savedAt now saves publishes
  | .started now publishes => onStarted repr r now publishes
  | .lost => { r with model := Table.empty }
  | .beat => { r with heartbeat := none }

def Redis.run (r : Redis) (es : List CardEvent) : Redis := es.foldl (Redis.step repr) r

/-! ## What the hash amounts to -/

/-- The last publication's status and time, and the last fit published. -/
structure Summary where
  status : Option (String × String)
  fit : Option Fit
  file : Option Saved

def Summary.publish (s : Summary) (x : String × String) (fit : Option Fit) : Summary :=
  { s with status := some x, fit := fit.or s.fit }

def Summary.step (s : Summary) : CardEvent → Summary
  | .calibrated outcome savedAt now saves publishes =>
    let s := { s with file := (savedOf outcome savedAt saves).or s.file }
    if publishes then s.publish (outcome.status, now) outcome.fit else s
  | .started _ publishes =>
    match s.file with
    | none => s
    | some saved => if publishes then s.publish ("adopted", saved.generatedAt) (some saved.fit) else s
  | .lost => { s with status := none, fit := none }
  | .beat => s

def unpublished : Summary := ⟨none, none, none⟩

def Summary.run (s : Summary) (es : List CardEvent) : Summary := es.foldl Summary.step s

def lookup (fields : List (String × String)) (key : String) : Option String := (fields.find? (·.1 == key)).map (·.2)

/-- The text under a key. -/
def Summary.text (s : Summary) (key : String) : Option String :=
  ((s.status.bind fun x => lookup (statusFields x.1 x.2) key)).or (s.fit.bind fun f => lookup (fitFields repr f) key)

structure Summed (r : Redis) (s : Summary) : Prop where
  model : ∀ key, r.model.get? key = s.text repr key
  file : r.file = s.file

/-- Keys without a repeat: the first entry is the last one. -/
theorem hset_get? (hash : Table String String) {mapping : List (String × String)} (h : (mapping.map (·.1)).Nodup) (key : String) :
    (hset hash mapping).get? key = (lookup mapping key).or (hash.get? key) := by
  rw [hset, Table.get?_foldl_set, lookup]
  congr 2
  induction mapping with
  | nil => rfl
  | cons x mapping ih =>
    rw [List.map_cons, List.nodup_cons] at h
    rw [List.reverse_cons, List.find?_append, ih h.2, List.find?_cons]
    cases hx : x.1 == key with
    | true =>
      have hnone : mapping.find? (·.1 == key) = none := by
        rw [List.find?_eq_none]
        intro y hy hkey
        rw [beq_iff_eq] at hx hkey
        exact h.1 (List.mem_map.mpr ⟨y, hy, by rw [hkey, hx]⟩)
      simp [hnone, hx]
    | false => simp [hx]

theorem lookup_append (a b : List (String × String)) (key : String) : lookup (a ++ b) key = (lookup a key).or (lookup b key) := by
  rw [lookup, List.find?_append, lookup, lookup]
  cases a.find? (·.1 == key) <;> rfl

/-- The same keys: what the one does not have, the other does not have either. -/
theorem lookup_none {a b : List (String × String)} (h : a.map (·.1) = b.map (·.1)) {key : String} (ha : lookup a key = none) :
    lookup b key = none := by
  rw [lookup, Option.map_eq_none_iff, List.find?_eq_none] at ha ⊢
  intro y hy hkey
  have hin : y.1 ∈ a.map (·.1) := by
    rw [h]
    exact List.mem_map_of_mem hy
  obtain ⟨x, hx, hsame⟩ := List.mem_map.mp hin
  exact ha x hx (by rw [hsame]; exact hkey)

theorem status_hides {x : String × String} {key : String} (h : lookup (statusFields x.1 x.2) key = none)
    (old : Option (String × String)) : (old.bind fun y => lookup (statusFields y.1 y.2) key) = none := by
  cases old with
  | none => rfl
  | some y => exact lookup_none (a := statusFields x.1 x.2) (b := statusFields y.1 y.2) rfl h

theorem fit_hides {f : Fit} {key : String} (h : lookup (fitFields repr f) key = none) (old : Option Fit) :
    (old.bind fun g => lookup (fitFields repr g) key) = none := by
  cases old with
  | none => rfl
  | some g => exact lookup_none (a := fitFields repr f) (b := fitFields repr g) rfl h

/-- Two or three fields are written over, or all of them. -/
theorem publish_summed {hash : Table String String} {s : Summary} (h : ∀ key, hash.get? key = s.text repr key)
    (x : String × String) (fit : Option Fit) (key : String) :
    (hset hash (statusFields x.1 x.2 ++ (fit.map (fitFields repr)).getD [])).get? key =
      (s.publish x fit).text repr key := by
  have hkeys : ((statusFields x.1 x.2 ++ (fit.map (fitFields repr)).getD []).map (·.1)).Nodup := by
    cases fit with
    | none =>
      show ["status", "generated_at", "features"].Nodup
      decide
    | some f =>
      show ["status", "generated_at", "features", "rows", "train_rows", "val_rows", "bias", "l2", "train_accuracy", "train_brier",
        "val_accuracy", "val_brier", "val_auc", "baseline_logloss", "model_logloss", "weights"].Nodup
      decide
  rw [hset_get? hash hkeys, lookup_append, h key, Summary.text, Summary.text, Summary.publish, Option.bind_some]
  cases hstatus : lookup (statusFields x.1 x.2) key with
  | some t => rfl
  | none =>
    rw [status_hides hstatus, Option.none_or, Option.none_or, Option.none_or]
    cases fit with
    | none => rfl
    | some f =>
      show (lookup (fitFields repr f) key).or _ = lookup (fitFields repr f) key
      cases hfit : lookup (fitFields repr f) key with
      | some t => rfl
      | none => exact fit_hides repr hfit s.fit

theorem step_summed {r : Redis} {s : Summary} (h : Summed repr r s) (e : CardEvent) : Summed repr (r.step repr e) (s.step e) := by
  have hmodel := h.model
  have hfile := h.file
  cases e with
  | beat => exact ⟨hmodel, hfile⟩
  | lost => exact ⟨fun _ => rfl, hfile⟩
  | started now publishes =>
    simp only [Redis.step, onStarted, Summary.step, hfile]
    cases hsaved : s.file with
    | none => exact ⟨hmodel, hfile⟩
    | some saved =>
      cases publishes with
      | false => exact ⟨hmodel, hfile⟩
      | true => exact ⟨publish_summed repr hmodel ("adopted", saved.generatedAt) (some saved.fit), hsaved.symm⟩
  | calibrated outcome savedAt now saves publishes =>
    have hnew : (savedOf outcome savedAt saves).or r.file = (savedOf outcome savedAt saves).or s.file := by rw [hfile]
    simp only [Redis.step, onCalibrated, Summary.step]
    cases publishes with
    | false => exact ⟨hmodel, hnew⟩
    | true => exact ⟨publish_summed repr hmodel (outcome.status, now) outcome.fit, hnew⟩

/-- The hash holds the texts of its summary, and the file is the summary's. -/
theorem run_summed (es : List CardEvent) : Summed repr (blank.run repr es) (unpublished.run es) := by
  have hall : ∀ (es : List CardEvent) {r : Redis} {s : Summary}, Summed repr r s → Summed repr (r.run repr es) (s.run es) := by
    intro es
    induction es with
    | nil => exact fun h => h
    | cons e es ih => exact fun h => ih (step_summed repr h e)
  exact hall es ⟨fun _ => rfl, rfl⟩

end CasuyaLive.Calibration
