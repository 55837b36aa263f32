/-
  CasuyaLive.Analytics.Serial — the worker loop of the analytics engine, one frame after
  another (analytics-engine-py, src/main.py: `_worker`).

  `serve` is the whole of one frame: it is settled and audited, a FULLTIME frame releases its
  match, the frame is observed and its triggers are sent. Every publication succeeds. An
  audit that raises ends the frame, a filter that raises ends its loop. It is what one worker
  does turn by turn (`serve_alone`).

  `gate_commanded`: a position that is open has the side of a command that was sent for it.
-/

import CasuyaLive.Analytics.Replay
import CasuyaLive.Analytics.Worker

namespace CasuyaLive.Analytics

open CasuyaLive.Lib

/-- The records published for the entries, and whether the loop came to its end. -/
def auditAll (now : ℚ) : List SettledEntry → List DiagnosticRecord × Bool
  | [] => ([], true)
  | entry :: rest =>
    match audit now entry with
    | .error _ => ([], false)
    | .ok none => auditAll now rest
    | .ok (some record) => (record :: (auditAll now rest).1, (auditAll now rest).2)

/-- The diagnostic that the frame at place `k` published. -/
def recordOf (k : Nat) : Act → Option DiagnosticRecord
  | .diagnostic k' record => if k' = k then some record else none
  | .acquired _ _ _ _ => none
  | .released _ _ => none
  | .command _ _ _ _ => none

section

variable (cfg : Settings) (verdict : MomentumFrame → Except Raised (Option Trigger))

/-- The positions taken for the snapshots of the frame at place `k`, with their commands. -/
def commandAll (k : Nat) (g : Gate) : List MomentumFrame → Gate × List Act
  | [] => (g, [])
  | snap :: rest =>
    match verdict (withFeatures cfg snap) with
    | .error _ => (g, [])
    | .ok none => commandAll k g rest
    | .ok (some t) =>
      match g.tryAcquire snap.matchID t.marketID t.side with
      | (_, false) => commandAll k g rest
      | (g', true) =>
        let (last, acts) := commandAll k g' rest
        (last, .acquired k snap.matchID t.marketID t.side :: .command k snap.matchID t.marketID t.side :: acts)

/-- The frame is released and observed, and its triggers are sent. -/
def observeAll (s : Broker) (item : Item) (now : ℚ) : Broker :=
  let released := release s item
  let (study, snapshots) := observeMany cfg released.study item.frame now
  let (gate, acts) := commandAll cfg verdict item.index released.gate snapshots
  { released with study := study, gate := gate, log := released.log ++ acts }

/-- The frame is taken, settled and audited. -/
def audited (s : Broker) (r : Received) : Broker :=
  { s with history := s.history ++ [r.frame], study := (collectSettled s.study r.frame).1
           log := s.log ++ (auditAll r.asof (collectSettled s.study r.frame).2).1.map (.diagnostic s.history.length) }

def serve (s : Broker) (r : Received) : Broker :=
  if (auditAll r.asof (collectSettled s.study r.frame).2).2 then
    observeAll cfg verdict (audited s r) ⟨s.history.length, r.frame⟩ r.asof
  else audited s r

def serveAll (s : Broker) (rs : List Received) : Broker := rs.foldl (serve cfg verdict) s

/-! ## The same frame, turn by turn -/

/-- A turn in which the one worker goes on. -/
def goesOn (now : ℚ) : Event → Bool
  | .send w => w == 0
  | .resume w t => w == 0 && t == now
  | .enqueue _ => false
  | .get _ _ => false
  | .fail _ => false

variable {cfg verdict}

/-- The worker has taken the position and had its command answered. -/
def commanded (s : Broker) (item : Item) (snap : MomentumFrame) (t : Trigger) (rest : List MomentumFrame) (g : Gate) : Broker :=
  { s with gate := g
           workers := [.commanding item snap.matchID t rest true]
           log := s.log ++ [.acquired item.index snap.matchID t.marketID t.side] ++
             [.command item.index snap.matchID t.marketID t.side] }

/-- The command is sent, its reply arrives, and the loop goes on behind it. -/
theorem command_replied {s : Broker} (h : s.workers.length = 1) (now : ℚ) (item : Item) {snap : MomentumFrame} {t : Trigger}
    {g : Gate} (hv : verdict (withFeatures cfg snap) = .ok (some t))
    (ha : s.gate.tryAcquire snap.matchID t.marketID t.side = (g, true)) (rest : List MomentumFrame) :
    step cfg verdict (step cfg verdict (trigger cfg verdict s 0 item (snap :: rest)) (.send 0)) (.resume 0 now) =
      trigger cfg verdict (commanded s item snap t rest g) 0 item rest := by
  obtain ⟨p, hp⟩ := List.length_eq_one_iff.mp h
  simp only [trigger, nextTrigger, hv, ha]
  simp [step, note, setPhase, hp, commanded, trigger]

theorem commands_alone (now : ℚ) (item : Item) (snaps : List MomentumFrame) : ∀ (s : Broker), s.workers.length = 1 →
    ∃ es, es.all (goesOn now) = true ∧ run cfg verdict (trigger cfg verdict s 0 item snaps) es =
      { s with workers := [.idle], gate := (commandAll cfg verdict item.index s.gate snaps).1,
               log := s.log ++ (commandAll cfg verdict item.index s.gate snaps).2 } := by
  have hidle : ∀ s : Broker, s.workers.length = 1 →
      run cfg verdict (setPhase s 0 .idle) [] = { s with workers := [.idle], log := s.log ++ [] } := by
    intro s h
    obtain ⟨p, hp⟩ := List.length_eq_one_iff.mp h
    simp [run, setPhase, hp]
  induction snaps with
  | nil => intro s h; exact ⟨[], rfl, hidle s h⟩
  | cons snap rest ih =>
    intro s h
    cases hv : verdict (withFeatures cfg snap) with
    | error x =>
      refine ⟨[], rfl, ?_⟩
      simp only [trigger, nextTrigger, commandAll, hv]
      exact hidle s h
    | ok o =>
      cases o with
      | none =>
        have hnext := ih s h
        simp only [trigger, nextTrigger, commandAll, hv] at hnext ⊢
        exact hnext
      | some t =>
        cases ha : s.gate.tryAcquire snap.matchID t.marketID t.side with
        | mk g' acquired =>
          cases acquired with
          | false =>
            have hnext := ih s h
            simp only [trigger, nextTrigger, commandAll, hv, ha] at hnext ⊢
            exact hnext
          | true =>
            obtain ⟨es, hes, hrun⟩ := ih (commanded s item snap t rest g') rfl
            refine ⟨.send 0 :: .resume 0 now :: es, by simp [goesOn, hes], ?_⟩
            rw [run, List.foldl_cons, List.foldl_cons, ← run, command_replied h now item hv ha, hrun]
            simp [commandAll, hv, ha, commanded]

/-- The workers have no part in what a frame does. -/
theorem observeAll_workers (s : Broker) (item : Item) (now : ℚ) (ws vs : List Phase) :
    { observeAll cfg verdict { s with workers := ws } item now with workers := vs } =
      { observeAll cfg verdict s item now with workers := vs } := by
  simp only [observeAll, release]
  split <;> rfl

/-- The worker has had the record's publication answered. -/
def diagnosed (s : Broker) (item : Item) (record : DiagnosticRecord) (rest : List SettledEntry) : Broker :=
  { s with workers := [.diagnosing item record rest true], log := s.log ++ [.diagnostic item.index record] }

/-- The record is published, its reply arrives, and the loop goes on behind it. -/
theorem record_replied {s : Broker} (h : s.workers.length = 1) (now : ℚ) (item : Item) {entry : SettledEntry}
    {record : DiagnosticRecord} (ha : audit now entry = .ok (some record)) (rest : List SettledEntry) :
    step cfg verdict (step cfg verdict (audits cfg verdict s 0 item now (entry :: rest)) (.send 0)) (.resume 0 now) =
      audits cfg verdict (diagnosed s item record rest) 0 item now rest := by
  obtain ⟨p, hp⟩ := List.length_eq_one_iff.mp h
  simp only [audits, nextRecord, ha]
  simp [step, note, setPhase, hp, diagnosed, audits]

theorem audits_alone (now : ℚ) (item : Item) (entries : List SettledEntry) : ∀ (s : Broker), s.workers.length = 1 →
    ∃ es, es.all (goesOn now) = true ∧ run cfg verdict (audits cfg verdict s 0 item now entries) es =
      let audited := { s with log := s.log ++ (auditAll now entries).1.map (.diagnostic item.index) }
      { (if (auditAll now entries).2 then observeAll cfg verdict audited item now else audited) with workers := [.idle] } := by
  induction entries with
  | nil =>
    intro s h
    have hlen : (release s item).workers.length = 1 := by
      unfold release
      split <;> exact h
    obtain ⟨es, hes, hrun⟩ := commands_alone now item (observeMany cfg (release s item).study item.frame now).2
      { release s item with study := (observeMany cfg (release s item).study item.frame now).1 } hlen
    refine ⟨es, hes, ?_⟩
    simp only [audits, nextRecord, releaseAndObserve]
    rw [hrun]
    simp [auditAll, observeAll]
  | cons entry rest ih =>
    intro s h
    cases ha : audit now entry with
    | error x =>
      obtain ⟨p, hp⟩ := List.length_eq_one_iff.mp h
      refine ⟨[], rfl, ?_⟩
      simp [audits, nextRecord, auditAll, ha, run, setPhase, hp]
    | ok o =>
      cases o with
      | none =>
        have hnext := ih s h
        simp only [audits, nextRecord, auditAll, ha] at hnext ⊢
        exact hnext
      | some record =>
        obtain ⟨es, hes, hrun⟩ := ih (diagnosed s item record rest) rfl
        refine ⟨.send 0 :: .resume 0 now :: es, by simp [goesOn, hes], ?_⟩
        rw [run, List.foldl_cons, List.foldl_cons, ← run, record_replied h now item ha, hrun]
        cases hthrough : (auditAll now rest).2
        · simp [auditAll, ha, hthrough, diagnosed]
        · have hworkers := @observeAll_workers cfg verdict
            { s with log := s.log ++ (record :: (auditAll now rest).1).map (.diagnostic item.index) } item now
            [.diagnosing item record rest true] [.idle]
          simp only [auditAll, ha, hthrough, diagnosed, if_true]
          rw [← hworkers]
          simp

/-- One worker with an empty queue serves a frame that comes in. -/
theorem serve_alone (s : Broker) (r : Received) (hw : s.workers = [.idle]) (hq : s.queue = []) :
    ∃ es, es.all (goesOn r.asof) = true ∧
      run cfg verdict s (.enqueue r.frame :: .get 0 r.asof :: es) = serve cfg verdict s r := by
  obtain ⟨es, hes, hrun⟩ := @audits_alone cfg verdict r.asof ⟨s.history.length, r.frame⟩ (collectSettled s.study r.frame).2
    (take { s with history := s.history ++ [r.frame] } ⟨s.history.length, r.frame⟩ []) (by simp [take, hw])
  refine ⟨es, hes, ?_⟩
  have hstart : step cfg verdict (step cfg verdict s (.enqueue r.frame)) (.get 0 r.asof) =
      audits cfg verdict (take { s with history := s.history ++ [r.frame] } ⟨s.history.length, r.frame⟩ []) 0
        ⟨s.history.length, r.frame⟩ r.asof (collectSettled s.study r.frame).2 := by
    simp [step, enqueue, hq, hw, queueSize, take]
  rw [run, List.foldl_cons, List.foldl_cons, ← run, hstart, hrun]
  cases hthrough : (auditAll r.asof (collectSettled s.study r.frame).2).2
  · simp [serve, audited, hthrough, take, hw, hq]
  · simp only [serve, audited, hthrough, take, hq, if_true, observeAll, release]
    split <;> simp [note, hw]

/-! ## What the gate holds -/

theorem commandAll_gate (k : Nat) {m market side : String} (snaps : List MomentumFrame) : ∀ (g : Gate),
    (commandAll cfg verdict k g snaps).1.get? (m, market) = some side →
      g.get? (m, market) = some side ∨ Act.command k m market side ∈ (commandAll cfg verdict k g snaps).2 := by
  induction snaps with
  | nil => intro g h; exact Or.inl h
  | cons snap rest ih =>
    intro g h
    simp only [commandAll] at h ⊢
    cases hv : verdict (withFeatures cfg snap) with
    | error x =>
      simp only [hv] at h ⊢
      exact Or.inl h
    | ok o =>
      cases o with
      | none =>
        simp only [hv] at h ⊢
        exact ih g h
      | some t =>
        unfold Gate.tryAcquire at h ⊢
        by_cases hheld : (g.get? (snap.matchID, t.marketID)).isSome = true
        · simp only [hv, hheld, if_true] at h ⊢
          exact ih g h
        · simp only [hv, hheld, Bool.false_eq_true, if_false] at h ⊢
          rcases ih _ h with hset | hin
          · rw [Table.get?_set] at hset
            split at hset
            · rename_i hkey
              obtain ⟨rfl, rfl⟩ := Prod.mk.injEq _ _ _ _ ▸ hkey
              obtain rfl := Option.some.inj hset
              exact Or.inr (by simp)
            · exact Or.inl hset
          · exact Or.inr (List.mem_cons_of_mem _ (List.mem_cons_of_mem _ hin))

theorem release_gate (s : Broker) (item : Item) {key : String × String} {side : String}
    (h : (release s item).gate.get? key = some side) : s.gate.get? key = some side := by
  unfold release at h
  split at h
  · exact h
  · simp only [note, Gate.release, Table.get?_filter] at h
    split at h
    · exact h
    · cases h

theorem commandAll_quiet (k j : Nat) (snaps : List MomentumFrame) :
    ∀ (g : Gate), (commandAll cfg verdict k g snaps).2.filterMap (recordOf j) = [] := by
  induction snaps with
  | nil => intro g; rfl
  | cons snap rest ih =>
    intro g
    simp only [commandAll]
    split
    · rfl
    · exact ih g
    · split
      · exact ih g
      · exact ih _

/-- After its audits a frame publishes no more diagnostics. -/
theorem observeAll_log (s : Broker) (item : Item) (now : ℚ) :
    ∃ acts, (observeAll cfg verdict s item now).log = s.log ++ acts ∧ ∀ j, acts.filterMap (recordOf j) = [] := by
  have hrelease : ∃ acts, (release s item).log = s.log ++ acts ∧ ∀ j, acts.filterMap (recordOf j) = [] := by
    unfold release
    split
    · exact ⟨[], by simp, fun _ => rfl⟩
    · exact ⟨_, rfl, fun _ => rfl⟩
  obtain ⟨acts, hacts, hquiet⟩ := hrelease
  refine ⟨acts ++ (commandAll cfg verdict item.index (release s item).gate
    (observeMany cfg (release s item).study item.frame now).2).2, ?_, fun j => ?_⟩
  · rw [← List.append_assoc, ← hacts]
    rfl
  · rw [List.filterMap_append, hquiet, commandAll_quiet]
    rfl

theorem observeAll_gate {s : Broker} {item : Item} {now : ℚ} {m market side : String}
    (h : (observeAll cfg verdict s item now).gate.get? (m, market) = some side) :
    s.gate.get? (m, market) = some side ∨ Act.command item.index m market side ∈ (observeAll cfg verdict s item now).log := by
  rcases commandAll_gate item.index _ _ h with hheld | hin
  · exact Or.inl (release_gate s item hheld)
  · exact Or.inr (List.mem_append_right _ hin)

theorem commandAll_keeps (k : Nat) {key : String × String} (snaps : List MomentumFrame) : ∀ (g : Gate),
    (g.get? key).isSome = true → ((commandAll cfg verdict k g snaps).1.get? key).isSome = true := by
  induction snaps with
  | nil => intro g h; exact h
  | cons snap rest ih =>
    intro g h
    simp only [commandAll]
    split
    · exact h
    · exact ih g h
    · rename_i t _
      have hkeeps := Gate.tryAcquire_keeps h snap.matchID t.marketID t.side
      split
      · exact ih g h
      · rename_i g' ha
        rw [ha] at hkeeps
        exact ih g' hkeeps

/-- A frame that closes nothing, or whose audit raises, leaves every position open. -/
theorem serve_keeps {s : Broker} {r : Received} {key : String × String} (h : (s.gate.get? key).isSome = true)
    (hr : r.frame.closes = none ∨ (auditAll r.asof (collectSettled s.study r.frame).2).2 = false) :
    ((serve cfg verdict s r).gate.get? key).isSome = true := by
  unfold serve
  split
  · rename_i hthrough
    rcases hr with hopen | hstop
    · have hsame : release (audited s r) ⟨s.history.length, r.frame⟩ = audited s r := by simp only [release, hopen]
      apply commandAll_keeps
      rw [hsame]
      exact h
    · rw [hstop] at hthrough
      cases hthrough
  · exact h

/-- A FULLTIME frame whose audits come to their end closes every position of its match. -/
theorem serve_releases (s : Broker) {r : Received} {m : String} (hc : r.frame.closes = some m)
    (hthrough : (auditAll r.asof (collectSettled s.study r.frame).2).2 = true) (market : String) :
    (serve cfg verdict s r).gate.get? (m, market) = none := by
  have hrelease : (release (audited s r) ⟨s.history.length, r.frame⟩).gate = s.gate.release m := by
    simp only [release, hc]
    rfl
  have hskip := observeMany_none cfg (release (audited s r) ⟨s.history.length, r.frame⟩).study
    (Frame.observed_final (Frame.closes_final hc)) r.asof
  simp only [serve, hthrough, if_true, observeAll, hskip, commandAll, hrelease]
  simp [Gate.release, Table.get?_filter]

/-- Every open position has a command of its side. -/
def Commanded (s : Broker) : Prop :=
  ∀ m market side, s.gate.get? (m, market) = some side → ∃ k, Act.command k m market side ∈ s.log

theorem serve_commanded {s : Broker} (h : Commanded s) (r : Received) : Commanded (serve cfg verdict s r) := by
  have haudited : Commanded (audited s r) := by
    intro m market side hg
    obtain ⟨k, hk⟩ := h m market side hg
    exact ⟨k, by simp only [audited]; exact List.mem_append_left _ hk⟩
  unfold serve
  split
  · intro m market side hg
    rcases observeAll_gate hg with hheld | hin
    · obtain ⟨k, hk⟩ := haudited m market side hheld
      obtain ⟨acts, hacts, -⟩ := @observeAll_log cfg verdict (audited s r) ⟨s.history.length, r.frame⟩ r.asof
      exact ⟨k, by rw [hacts]; exact List.mem_append_left _ hk⟩
    · exact ⟨_, hin⟩
  · exact haudited

/-- The side of an open position is the side of a command that was sent for it. -/
theorem gate_commanded (rs : List Received) : Commanded (serveAll cfg verdict (start 1) rs) := by
  refine fold_inv Commanded (fun s r h => serve_commanded h r) rs (s := start 1) ?_
  intro m market side h
  cases h

end

end CasuyaLive.Analytics
