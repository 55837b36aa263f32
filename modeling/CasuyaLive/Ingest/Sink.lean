/-
  CasuyaLive.Ingest.Sink — what a poller tells the sink, and what it is told back.

  The sink (`PublishMatch`) is any function of what happened so far, so every pattern of
  accepted and refused frames is some sink. The log is not in the source: it is the
  history, in order, of the entries a poller looked at, the frames it handed over with
  the answers, and the matches it stopped tracking.
-/

import CasuyaLive.Lib.History
import CasuyaLive.Ingest.Stream

namespace CasuyaLive.Ingest

open CasuyaLive.Lib CasuyaLive.Ingest.Stream

inductive Obs (ρ : Type) where
  | listed (raw : ρ)
  | sent (m : Match) (ok : Bool)
  /-- The match is no longer tracked; `finished` when the poller took it as ended. -/
  | stopped (matchID : String) (finished : Bool)

abbrev Sink (ρ : Type) := List (Obs ρ) → Match → Bool

variable {ρ : Type}

def accept : Sink ρ := fun _ _ => true

/-- The frames handed to the sink, in order. -/
def frames (log : List (Obs ρ)) : List Match :=
  log.filterMap fun
    | .sent m _ => some m
    | _ => none

def framesOf (id : String) (log : List (Obs ρ)) : List Match := (frames log).filter (·.matchID == id)

theorem framesOf_append (id : String) (a b : List (Obs ρ)) : framesOf id (a ++ b) = framesOf id a ++ framesOf id b := by
  simp [framesOf, frames]

/-! ## Delivery -/

/-- The sink has accepted a FULLTIME frame of the match. -/
def Accepted (id : String) (log : List (Obs ρ)) : Prop := ∃ m, Obs.sent m true ∈ log ∧ m.clock = fulltime ∧ m.matchID = id

def acceptedBy (id : String) : Obs ρ → Bool
  | .listed _ => false
  | .sent m ok => ok && m.clock == fulltime && m.matchID == id
  | .stopped _ _ => false

theorem accepted_iff (id : String) (log : List (Obs ρ)) : log.any (acceptedBy id) = true ↔ Accepted id log := by
  rw [List.any_eq_true]
  constructor
  · intro hx
    rcases hx with ⟨o, ho, h⟩
    cases o with
    | listed raw => cases h
    | stopped i fin => cases h
    | sent m ok =>
      simp only [acceptedBy, Bool.and_eq_true, beq_iff_eq] at h
      obtain ⟨⟨rfl, hc⟩, hid⟩ := h
      exact ⟨m, ho, hc, hid⟩
  · intro hx
    rcases hx with ⟨m, hm, hc, hid⟩
    exact ⟨_, hm, by simp [acceptedBy, hc, hid]⟩

instance (id : String) (log : List (Obs ρ)) : Decidable (Accepted id log) := decidable_of_iff _ (accepted_iff id log)

theorem Accepted.append {id : String} {log : List (Obs ρ)} (h : Accepted id log) (new : List (Obs ρ)) :
    Accepted id (log ++ new) := by
  obtain ⟨m, hm, hc⟩ := h
  exact ⟨m, List.mem_append_left _ hm, hc⟩

theorem accepted_sent {id : String} {log : List (Obs ρ)} {m : Match} {ok : Bool} (hc : m.clock = fulltime) (hid : m.matchID = id) :
    Accepted id (log ++ [.sent m ok]) ↔ ok = true ∨ Accepted id log := by
  rw [← accepted_iff, ← accepted_iff, List.any_append, Bool.or_eq_true, or_comm]
  simp [acceptedBy, hc, hid]

/-- A match taken as finished has an accepted FULLTIME frame. -/
def EndOk (pre : List (Obs ρ)) : Obs ρ → Prop
  | .listed _ => True
  | .sent _ _ => True
  | .stopped id finished => finished = true → Accepted id pre

instance (pre : List (Obs ρ)) (o : Obs ρ) : Decidable (EndOk pre o) :=
  match o with
  | .listed _ => isTrue trivial
  | .sent _ _ => isTrue trivial
  | .stopped id finished => inferInstanceAs (Decidable (finished = true → Accepted id pre))

def Delivered (log : List (Obs ρ)) : Prop := Each EndOk log

instance (log : List (Obs ρ)) : Decidable (Delivered log) := inferInstanceAs (Decidable (Each EndOk log))

theorem delivered_sent (log : List (Obs ρ)) (m : Match) (ok : Bool) : Delivered (log ++ [.sent m ok]) ↔ Delivered log := by
  unfold Delivered
  rw [each_append]
  simp [each_cons, EndOk]

theorem delivered_listed (log : List (Obs ρ)) (raw : ρ) : Delivered (log ++ [.listed raw]) ↔ Delivered log := by
  unfold Delivered
  rw [each_append]
  simp [each_cons, EndOk]

theorem delivered_stopped (log : List (Obs ρ)) (id : String) (fin : Bool) :
    Delivered (log ++ [.stopped id fin]) ↔ Delivered log ∧ (fin = true → Accepted id log) := by
  unfold Delivered
  rw [each_append]
  simp [each_cons, EndOk]

/-- A match that ends with the frame `m`. -/
theorem delivered_end (log : List (Obs ρ)) {id : String} {m : Match} (ok : Bool) (hc : m.clock = fulltime) (hid : m.matchID = id) :
    Delivered (log ++ [.sent m ok] ++ [.stopped id true]) ↔ Delivered log ∧ (ok = true ∨ Accepted id log) := by
  rw [delivered_stopped, delivered_sent, accepted_sent hc hid]
  simp

theorem Delivered.accepted {log : List (Obs ρ)} (h : Delivered log) {id : String} (hs : Obs.stopped id true ∈ log) :
    Accepted id log := by
  obtain ⟨pre, post, rfl⟩ := List.append_of_mem hs
  have hacc : Accepted id pre := h pre _ post rfl rfl
  exact hacc.append _

end CasuyaLive.Ingest
