/-
  CasuyaLive.Analytics.Worker — the analytics broker (analytics-engine-py, src/main.py:
  `run`, `_worker`): one bounded queue of frames, several workers, one study and one gate.

  A worker runs from one await to the next without being interrupted. It waits for the
  queue, or for the publication of a diagnostic or of a command. A publication takes effect
  (`send`) and its reply arrives (`resume`) at some later moment, and it can raise before or
  after it took effect (`fail`); a frame that raises is given up. The lock around the gate is
  never held across an await, so nobody ever waits for it.

  `verdict` is what the filter says of a snapshot: it raises, or it may name a market and a
  side to execute. `history` is every frame the queue accepted, in order, and `log` what the
  workers did.
-/

import CasuyaLive.Lib.Run
import CasuyaLive.Analytics.FilterEngine
import CasuyaLive.Analytics.PositionGate

namespace CasuyaLive.Analytics

open CasuyaLive.Lib

/-- What the worker reads of a verdict that should execute. -/
structure Trigger where
  marketID : String
  side : String
  deriving DecidableEq

/-- The filter's own verdict. -/
noncomputable def filterVerdict (cfg : FilterSettings) (snap : MomentumFrame) : Except Raised (Option Trigger) := do
  let v ← evaluate cfg snap
  return if v.shouldExecute then some ⟨v.marketID, v.side⟩ else none

/-- A queued frame and its place in the queue's history. -/
structure Item where
  index : Nat
  frame : Frame
  deriving DecidableEq

inductive Phase where
  /-- Waiting for the queue. -/
  | idle
  /-- Publishing a diagnostic, these entries still to audit. -/
  | diagnosing (item : Item) (record : DiagnosticRecord) (rest : List SettledEntry) (sent : Bool)
  /-- Publishing a command, these snapshots still to evaluate. -/
  | commanding (item : Item) (m : String) (trigger : Trigger) (rest : List MomentumFrame) (sent : Bool)
  deriving DecidableEq

structure Broker where
  history : List Frame
  queue : List Item
  dropped : Nat
  study : Study
  gate : Gate
  workers : List Phase
  log : List Act
  deriving DecidableEq

def queueSize : Nat := 4096

/-- `n` workers waiting for the first frame. -/
def start (n : Nat) : Broker := ⟨[], [], 0, Study.fresh, Table.empty, List.replicate n .idle, []⟩

inductive Event where
  | enqueue (f : Frame)
  /-- An idle worker takes the next frame and runs to its next await. -/
  | get (w : Nat) (now : ℚ)
  | send (w : Nat)
  /-- The reply arrives and the worker runs to its next await. -/
  | resume (w : Nat) (now : ℚ)
  | fail (w : Nat)
  deriving DecidableEq

def setPhase (s : Broker) (w : Nat) (p : Phase) : Broker := { s with workers := s.workers.set w p }

def note (s : Broker) (a : Act) : Broker := { s with log := s.log ++ [a] }

/-- The next diagnostic among the entries, with the entries behind it. -/
def nextRecord (now : ℚ) : List SettledEntry → Except Raised (Option (DiagnosticRecord × List SettledEntry))
  | [] => .ok none
  | entry :: rest =>
    match audit now entry with
    | .error x => .error x
    | .ok none => nextRecord now rest
    | .ok (some record) => .ok (some (record, rest))

section

variable (cfg : Settings) (verdict : MomentumFrame → Except Raised (Option Trigger))

/-- The next position claimed for the snapshots: the gate with it, and the snapshots behind. -/
def nextTrigger (g : Gate) : List MomentumFrame → Option (Gate × String × Trigger × List MomentumFrame)
  | [] => none
  | snap :: rest =>
    match verdict (withFeatures cfg snap) with
    | .error _ => none
    | .ok none => nextTrigger g rest
    | .ok (some t) =>
      match g.tryAcquire snap.matchID t.marketID t.side with
      | (_, false) => nextTrigger g rest
      | (g', true) => some (g', snap.matchID, t, rest)

/-- The loop over the snapshots, up to its next publication. -/
def trigger (s : Broker) (w : Nat) (item : Item) (snapshots : List MomentumFrame) : Broker :=
  match nextTrigger cfg verdict s.gate snapshots with
  | none => setPhase s w .idle
  | some (gate, m, t, rest) =>
    note (setPhase { s with gate := gate } w (.commanding item m t rest false)) (.acquired item.index m t.marketID t.side)

def release (s : Broker) (item : Item) : Broker :=
  match item.frame.closes with
  | none => s
  | some m => note { s with gate := s.gate.release m } (.released item.index m)

/-- After the audits: a FULLTIME frame releases its match, then the frame is observed. -/
def releaseAndObserve (s : Broker) (w : Nat) (item : Item) (now : ℚ) : Broker :=
  let released := release s item
  let (study, snapshots) := observeMany cfg released.study item.frame now
  trigger cfg verdict { released with study := study } w item snapshots

/-- The loop over the settled entries, up to its next publication, and what comes after it. -/
def audits (s : Broker) (w : Nat) (item : Item) (now : ℚ) (entries : List SettledEntry) : Broker :=
  match nextRecord now entries with
  | .error _ => setPhase s w .idle
  | .ok (some (record, rest)) => setPhase s w (.diagnosing item record rest false)
  | .ok none => releaseAndObserve cfg verdict s w item now

/-- The frame at the head of the queue is taken and settled. -/
def take (s : Broker) (item : Item) (queue : List Item) : Broker :=
  { s with queue := queue, study := (collectSettled s.study item.frame).1 }

def enqueue (s : Broker) (f : Frame) : Broker :=
  if s.queue.length < queueSize then
    { s with queue := s.queue ++ [⟨s.history.length, f⟩], history := s.history ++ [f] }
  else { s with dropped := s.dropped + 1 }

def step (s : Broker) : Event → Broker
  | .enqueue f => enqueue s f
  | .get w now =>
    match s.workers[w]?, s.queue with
    | some .idle, item :: queue =>
      audits cfg verdict (take s item queue) w item now (collectSettled s.study item.frame).2
    | _, _ => s
  | .send w =>
    match s.workers[w]? with
    | some (.diagnosing item record rest false) =>
      note (setPhase s w (.diagnosing item record rest true)) (.diagnostic item.index record)
    | some (.commanding item m t rest false) =>
      note (setPhase s w (.commanding item m t rest true)) (.command item.index m t.marketID t.side)
    | _ => s
  | .resume w now =>
    match s.workers[w]? with
    | some (.diagnosing item _ rest true) => audits cfg verdict s w item now rest
    | some (.commanding item _ _ rest true) => trigger cfg verdict s w item rest
    | _ => s
  | .fail w =>
    match s.workers[w]? with
    | some (.diagnosing _ _ _ _) => setPhase s w .idle
    | some (.commanding _ _ _ _ _) => setPhase s w .idle
    | _ => s

def run (s : Broker) (es : List Event) : Broker := es.foldl (step cfg verdict) s

/-! ## What a turn depends on -/

/-- The snapshots a turn may evaluate. -/
def evaluated (s : Broker) : Event → List MomentumFrame
  | .get w now =>
    match s.workers[w]?, s.queue with
    | some .idle, item :: queue => (observeMany cfg (take s item queue).study item.frame now).2
    | _, _ => []
  | .resume w now =>
    match s.workers[w]? with
    | some (.diagnosing item _ _ true) => (observeMany cfg s.study item.frame now).2
    | some (.commanding _ _ _ rest true) => rest
    | _ => []
  | .enqueue _ => []
  | .send _ => []
  | .fail _ => []

variable {cfg verdict}

theorem nextTrigger_congr {other : MomentumFrame → Except Raised (Option Trigger)} (g : Gate) (snaps : List MomentumFrame)
    (h : ∀ x ∈ snaps, verdict (withFeatures cfg x) = other (withFeatures cfg x)) :
    nextTrigger cfg verdict g snaps = nextTrigger cfg other g snaps := by
  induction snaps with
  | nil => rfl
  | cons snap rest ih =>
    rw [nextTrigger, nextTrigger, h snap List.mem_cons_self, ih fun x hx => h x (List.mem_cons_of_mem _ hx)]

theorem release_study (s : Broker) (item : Item) : (release s item).study = s.study := by
  unfold release
  split <;> rfl

theorem audits_congr {other : MomentumFrame → Except Raised (Option Trigger)} (s : Broker) (w : Nat) (item : Item) (now : ℚ)
    (entries : List SettledEntry)
    (h : ∀ x ∈ (observeMany cfg s.study item.frame now).2, verdict (withFeatures cfg x) = other (withFeatures cfg x)) :
    audits cfg verdict s w item now entries = audits cfg other s w item now entries := by
  unfold audits
  split
  · rfl
  · rfl
  · simp only [releaseAndObserve, release_study, trigger]
    rw [nextTrigger_congr _ _ h]

/-- A turn is the same under two filters that agree on the snapshots it may evaluate. -/
theorem step_congr {other : MomentumFrame → Except Raised (Option Trigger)} (s : Broker) (e : Event)
    (h : ∀ x ∈ evaluated cfg s e, verdict (withFeatures cfg x) = other (withFeatures cfg x)) :
    step cfg verdict s e = step cfg other s e := by
  cases e with
  | enqueue f => rfl
  | send w => rfl
  | fail w => rfl
  | get w now =>
    simp only [step, evaluated] at h ⊢
    split
    · rename_i hw hq
      rw [hw, hq] at h
      exact audits_congr _ _ _ _ _ h
    · rfl
  | resume w now =>
    simp only [step, evaluated] at h ⊢
    split
    · rename_i hw
      rw [hw] at h
      exact audits_congr _ _ _ _ _ h
    · rename_i hw
      rw [hw] at h
      simp only [trigger, nextTrigger_congr _ _ h]
    · rfl

theorem run_congr {other : MomentumFrame → Except Raised (Option Trigger)} (es : List Event) {s : Broker}
    (h : Meets (step cfg other)
      (fun s e => ∀ x ∈ evaluated cfg s e, verdict (withFeatures cfg x) = other (withFeatures cfg x)) s es) :
    run cfg verdict s es = run cfg other s es :=
  Lib.run_congr (fun s e he => step_congr s e he) h

/-! ## Frames in hand -/

def itemOf : Phase → Option Item
  | .idle => none
  | .diagnosing item _ _ _ => some item
  | .commanding item _ _ _ _ => some item

/-- The property holds of every frame in the queue and with a worker. -/
def Held (P : Item → Prop) (s : Broker) : Prop := (∀ q ∈ s.queue, P q) ∧ ∀ p ∈ s.workers, ∀ item ∈ itemOf p, P item

variable {P : Item → Prop}

theorem held_setPhase {s : Broker} (h : Held P s) (w : Nat) {p : Phase} (hp : ∀ item ∈ itemOf p, P item) :
    Held P (setPhase s w p) := by
  refine ⟨h.1, ?_⟩
  intro q hq item hitem
  rcases List.mem_or_eq_of_mem_set hq with hq | rfl
  · exact h.2 q hq item hitem
  · exact hp item hitem

theorem held_idle {s : Broker} (h : Held P s) (w : Nat) : Held P (setPhase s w .idle) :=
  held_setPhase h w fun _ hitem => by simp [itemOf] at hitem

theorem held_worker {s : Broker} (h : Held P s) {w : Nat} {p : Phase} (hw : s.workers[w]? = some p) {item : Item}
    (hitem : itemOf p = some item) : P item :=
  h.2 p (List.mem_of_getElem? hw) item hitem

theorem held_trigger {s : Broker} (h : Held P s) (w : Nat) {item : Item} (hi : P item) (snaps : List MomentumFrame) :
    Held P (trigger cfg verdict s w item snaps) ∧ (trigger cfg verdict s w item snaps).history = s.history := by
  unfold trigger
  split
  · exact ⟨held_idle h w, rfl⟩
  · rename_i gate m t rest _
    have hphase := @held_setPhase P { s with gate := gate } h w (.commanding item m t rest false) (fun x hx => by
      cases hx
      exact hi)
    exact ⟨hphase, rfl⟩

theorem held_release {s : Broker} (h : Held P s) (item : Item) :
    Held P (release s item) ∧ (release s item).history = s.history := by
  unfold release
  split
  · exact ⟨h, rfl⟩
  · exact ⟨h, rfl⟩

theorem held_audits {s : Broker} (h : Held P s) (w : Nat) {item : Item} (hi : P item) (now : ℚ) (entries : List SettledEntry) :
    Held P (audits cfg verdict s w item now entries) ∧ (audits cfg verdict s w item now entries).history = s.history := by
  unfold audits
  split
  · exact ⟨held_idle h w, rfl⟩
  · refine ⟨held_setPhase h w fun x hx => ?_, rfl⟩
    cases hx
    exact hi
  · obtain ⟨hreleased, hhistory⟩ := held_release h item
    obtain ⟨htrigger, hsame⟩ := @held_trigger cfg verdict P
      { release s item with study := (observeMany cfg (release s item).study item.frame now).1 } hreleased w item hi
      (observeMany cfg (release s item).study item.frame now).2
    exact ⟨htrigger, hsame.trans hhistory⟩

theorem enqueue_held {s : Broker} (h : Held P s) {f : Frame} (hf : P ⟨s.history.length, f⟩) : Held P (enqueue s f) := by
  unfold enqueue
  split
  · refine ⟨?_, h.2⟩
    intro q hq
    rcases List.mem_append.mp hq with hq | hq
    · exact h.1 q hq
    · rw [List.mem_singleton.mp hq]
      exact hf
  · exact h

/-- A worker's turn takes its frames from the queue, and leaves the history alone. -/
theorem step_held {s : Broker} (h : Held P s) {e : Event} (he : ∀ f, e ≠ .enqueue f) :
    Held P (step cfg verdict s e) ∧ (step cfg verdict s e).history = s.history := by
  cases e with
  | enqueue f => exact absurd rfl (he f)
  | get w now =>
    simp only [step]
    split
    · rename_i item queue _ hq
      have hall := h.1
      rw [hq] at hall
      have htake : Held P (take s item queue) := ⟨fun q hin => hall q (List.mem_cons_of_mem _ hin), h.2⟩
      exact held_audits htake w (hall item List.mem_cons_self) now _
    · exact ⟨h, rfl⟩
  | send w =>
    simp only [step]
    split
    · rename_i item record rest hw
      have hphase := held_setPhase h w (p := .diagnosing item record rest true) (fun x hx => by
        cases hx
        exact held_worker h hw rfl)
      exact ⟨hphase, rfl⟩
    · rename_i item m t rest hw
      have hphase := held_setPhase h w (p := .commanding item m t rest true) (fun x hx => by
        cases hx
        exact held_worker h hw rfl)
      exact ⟨hphase, rfl⟩
    · exact ⟨h, rfl⟩
  | resume w now =>
    simp only [step]
    split
    · rename_i hw
      exact held_audits h w (held_worker h hw rfl) now _
    · rename_i hw
      exact held_trigger h w (held_worker h hw rfl) _
    · exact ⟨h, rfl⟩
  | fail w =>
    simp only [step]
    split
    · exact ⟨held_idle h w, rfl⟩
    · exact ⟨held_idle h w, rfl⟩
    · exact ⟨h, rfl⟩

end

end CasuyaLive.Analytics
