/-
  CasuyaLive.Calibration.History — the frame history that a calibration reads
  (analytics-engine-py, scripts/calibrate.py: `load_frames`, `_frame_epoch`, `group_cycles`).

  Of a `received_at` only texts are read; a frame without a receive time is replayed at the
  wall clock, and is none here. A text without a zone is none either: it is in local time.
-/

import CasuyaLive.Analytics.Payload
import CasuyaLive.Calibration.Rows
import CasuyaLive.Ingest.Cache
import CasuyaLive.Lib.Calendar

namespace CasuyaLive.Calibration

open CasuyaLive.Lib CasuyaLive.Analytics

/-- The newest entries of the stream, in chronological order; one without data is skipped.
    The client refuses a count below 1. -/
def loadFrames (stream : List Ingest.Cache.StreamEntry) (limit : Nat) : Option (List Json.Parsed) :=
  if limit < 1 then none
  else some ((stream.reverse.take limit).filterMap fun e => if e.data = "" then none else Json.parse e.data.toList).reverse

/-- `str.replace("Z", "+00:00")`. -/
def replaceZ (cs : List Char) : List Char := cs.flatMap fun c => if c = 'Z' then "+00:00".toList else [c]

/-- `int` of a text. -/
def pyInt (s : String) : Option Int :=
  let (neg, ds) := Text.signed (Text.strip s).toList
  (Text.digitPart ds).map fun ds => if neg then -(Text.decimal ds : Int) else Text.decimal ds

def truncated (q : ℚ) : Int := if q < 0 then ⌈q⌉ else ⌊q⌋

section

variable (d : Doubles)

/-- `float` of a field. -/
def pyFloat : Json.Parsed → Option ℚ
  | .num l => (d.nearest l).map d.val
  | .str us => Text.float (Json.toText us)
  | .bool b => some (if b then 1 else 0)
  | _ => none

def frameEpoch (v : Json.Parsed) : Option ℚ :=
  let received := match v.get? (Json.ofString "received_at") with
    | some (.str us) => Calendar.fromIso (replaceZ (Json.toText us).toList)
    | _ => none
  match received with
  | some us => some (us / 1000000)
  | none => ((v.get? (Json.ofString "ts")).bind (pyFloat d)).map (· / 1000)

/-- The kickoff as `group_cycles` reads it; an instant is cut to its second. -/
def kickoffOf (v : Json.Parsed) : Kickoff :=
  match v.get? (Json.ofString "kickoff") with
  | none => .seconds 0
  | some (.num l) =>
    match l.int?, d.nearest l with
    | some n, _ => .seconds n
    | none, some x => .seconds (truncated (d.val x))
    | none, none => .unreadable
  | some (.bool b) => .seconds (if b then 1 else 0)
  | some (.str us) =>
    match pyInt (Json.toText us) with
    | some n => .seconds n
    | none =>
      match Calendar.fromIso (Json.toText us).toList with
      | some us => .instant (us.tdiv 1000000)
      | none => .unreadable
  | some _ => .unreadable

/-- A frame of the history, when it is well typed and has a receive time. -/
def readPayload (v : Json.Parsed) : Option Payload := do
  let frame ← frameOf d v
  let asof ← frameEpoch d v
  return ⟨⟨frame, asof⟩, kickoffOf d v⟩

/-- The cycles that a calibration collects its rows from. -/
def historyCycles (stream : List Ingest.Cache.StreamEntry) (limit : Nat) : Option (List (List Payload)) :=
  (loadFrames stream limit).map fun frames => groupCycles (frames.filterMap (readPayload d))

end

/-! ## Texts of instants -/

theorem replaceZ_stamp (t : Int) : replaceZ (Calendar.rfc3339 t) = Calendar.stamp t ++ "+00:00".toList := by
  have hkeep : ∀ cs : List Char, (∀ c ∈ cs, c ≠ 'Z') → replaceZ cs = cs := by
    intro cs hcs
    induction cs with
    | nil => rfl
    | cons c cs ih =>
      have hrest := ih fun x hx => hcs x (List.mem_cons_of_mem _ hx)
      rw [replaceZ] at hrest ⊢
      rw [List.flatMap_cons, hrest, if_neg (hcs c List.mem_cons_self), List.singleton_append]
  have hstamp : ∀ c ∈ Calendar.stamp t, c ≠ 'Z' := by
    rintro c hc rfl
    exact absurd (Calendar.stamp_char hc) (by decide)
  have happ : replaceZ (Calendar.rfc3339 t) = replaceZ (Calendar.stamp t) ++ replaceZ ['Z'] := List.flatMap_append
  rw [happ, hkeep _ hstamp]
  rfl

/-- An instant is no integer: its text has other marks than digits and underscores. -/
theorem pyInt_rfc3339 (t : Int) : pyInt (String.ofList (Calendar.rfc3339 t)) = none := by
  have hchar : ∀ c ∈ Calendar.rfc3339 t, Text.isPySpace c = false := by
    intro c hc
    rcases List.mem_append.mp hc with hc | hc
    · rcases Calendar.stamp_char hc with h | rfl | rfl | rfl | rfl
      · exact Text.isPySpace_digit h
      all_goals decide
    · rw [List.mem_singleton.mp hc]
      decide
  have hstrip : Text.strip (String.ofList (Calendar.rfc3339 t)) = String.ofList (Calendar.rfc3339 t) := by
    rw [Text.strip, Text.trim_eq_self]
    rwa [String.toList_ofList]
  have hmarker : 'T' ∈ Calendar.rfc3339 t := List.mem_append_left _ (Calendar.stamp_marker t)
  obtain ⟨c, cs, hhead, hdigit⟩ := Calendar.stamp_head t
  have hsigned : Text.signed (Calendar.rfc3339 t) = (false, Calendar.rfc3339 t) := by
    rw [Calendar.rfc3339, hhead, List.cons_append, Text.signed]
    · exact fun ds e => absurd ((List.cons.inj e).1 ▸ hdigit) (by decide)
    · exact fun ds e => absurd ((List.cons.inj e).1 ▸ hdigit) (by decide)
  have hpart : Text.digitPart (Calendar.rfc3339 t) = none := by
    have hnone : '_' ∉ Calendar.rfc3339 t := by
      intro hc
      rcases List.mem_append.mp hc with hc | hc
      · exact absurd (Calendar.stamp_char hc) (by decide)
      · exact absurd (List.mem_singleton.mp hc) (by decide)
    rw [Text.digitPart, List.splitOn_eq_singleton hnone, if_neg]
    intro hall
    simp only [List.all_cons, List.all_nil, Bool.and_true, Bool.and_eq_true, List.all_eq_true] at hall
    exact absurd (hall.2 'T' hmarker) (by decide)
  simp only [pyInt, hstrip, String.toList_ofList, hsigned, hpart, Option.map_none]

end CasuyaLive.Calibration
