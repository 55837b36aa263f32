/-
  CasuyaLive.Analytics.Faults — the worker loop when its steps raise (analytics-engine-py,
  src/main.py: `_worker`, its try block).

  For each market of a frame the features, the signing and the two publications may raise; a
  publication may raise before or after it took effect. The frame is then given up, and the
  handler stands outside the loop over the markets.

  `Mirrors`: a position is open exactly when a command went out for it since its match was
  released last. `mirrors_iff`: over every run of frames and faults, it holds after each
  frame, and every eligible market of each frame was evaluated, exactly when in no frame the
  first step to raise is a signing or a publication without effect, or has an eligible market
  behind it. One lost publication blocks its market until FULLTIME
  (`a_lost_command_blocks_the_market`).
-/

import CasuyaLive.Analytics.Cycles
import CasuyaLive.Analytics.Serial

namespace CasuyaLive.Analytics

open CasuyaLive.Lib

/-! ## Commands since the release -/

/-- A command for the position went out after the match's last release. -/
def CommandedSince (log : List Act) (m market : String) : Prop :=
  ∃ pre k side post, log = pre ++ .command k m market side :: post ∧ ∀ r, Act.released r m ∉ post

/-- The position is open exactly when it has its command. -/
def Mirrors (g : Gate) (log : List Act) : Prop := ∀ m market, (g.get? (m, market)).isSome = true ↔ CommandedSince log m market

theorem not_commanded_nil (m market : String) : ¬ CommandedSince [] m market := by
  intro hsince
  obtain ⟨pre, k, side, post, h, -⟩ := hsince
  simp at h

/-- What an act more changes. -/
theorem commandedSince_snoc (log : List Act) (a : Act) (m market : String) :
    CommandedSince (log ++ [a]) m market ↔
      (∃ k side, a = .command k m market side) ∨ (CommandedSince log m market ∧ ∀ r, a ≠ .released r m) := by
  constructor
  · intro hsince
    obtain ⟨pre, k, side, post, h, hpost⟩ := hsince
    rcases List.eq_nil_or_concat post with rfl | ⟨post', b, rfl⟩
    · obtain ⟨-, hb⟩ := List.append_inj' h rfl
      simp only [List.cons.injEq, and_true] at hb
      exact Or.inl ⟨k, side, hb⟩
    · rw [List.concat_eq_append, ← List.cons_append, ← List.append_assoc] at h
      obtain ⟨hlog, hb⟩ := List.append_inj' h rfl
      simp only [List.cons.injEq, and_true] at hb
      right
      refine ⟨⟨pre, k, side, post', hlog, fun r hr => hpost r (by simp [hr])⟩, fun r hr => ?_⟩
      exact hpost r (by simp [← hb, hr])
  · intro hcase
    rcases hcase with ⟨k, side, rfl⟩ | ⟨⟨pre, k, side, post, rfl, hpost⟩, ha⟩
    · exact ⟨log, k, side, [], rfl, by simp⟩
    · refine ⟨pre, k, side, post ++ [a], by simp, fun r hr => ?_⟩
      rcases List.mem_append.mp hr with hr | hr
      · exact hpost r hr
      · exact ha r (List.mem_singleton.mp hr).symm

theorem mirrors_start (n : Nat) : Mirrors (start n).gate (start n).log := by
  intro m market
  exact iff_of_false (by simp [start]) (not_commanded_nil m market)

theorem mirrors_diagnostics {g : Gate} {log : List Act} (h : Mirrors g log) (k : Nat) (records : List DiagnosticRecord) :
    Mirrors g (log ++ records.map (.diagnostic k)) := by
  induction records using List.reverseRecOn with
  | nil => simpa using h
  | append_singleton records record ih =>
    intro m market
    rw [List.map_append, ← List.append_assoc, List.map_singleton, commandedSince_snoc, ← ih m market]
    simp

theorem mirrors_release {g : Gate} {log : List Act} (h : Mirrors g log) (k : Nat) (m : String) :
    Mirrors (g.release m) (log ++ [.released k m]) := by
  intro m' market
  rw [commandedSince_snoc, ← h m' market, Gate.release, Table.get?_filter]
  by_cases hm : m' = m
  · simp [hm]
  · simp [hm, Ne.symm hm]

/-- A position with its command. -/
theorem mirrors_command {g : Gate} {log : List Act} (h : Mirrors g log) (k : Nat) (m market side : String) :
    Mirrors (g.set (m, market) side) (log ++ [.acquired k m market side] ++ [.command k m market side]) := by
  intro m' market'
  rw [commandedSince_snoc, commandedSince_snoc, ← h m' market', Table.get?_set]
  by_cases hm : (m', market') = (m, market)
  · rw [if_pos hm]
    obtain ⟨rfl, rfl⟩ := Prod.mk.inj hm
    simp
  · rw [if_neg hm]
    constructor
    · intro hheld
      exact Or.inr ⟨Or.inr ⟨hheld, by simp⟩, by simp⟩
    · intro hcase
      rcases hcase with ⟨k', side', he⟩ | ⟨⟨k', side', he⟩ | ⟨hheld, -⟩, -⟩
      · cases he
        exact absurd rfl hm
      · cases he
      · exact hheld

/-- A position without one is not mirrored. -/
theorem not_mirrors_acquired {g : Gate} {log : List Act} (h : Mirrors g log) (k : Nat) {m market : String} (side : String)
    (hfree : (g.get? (m, market)).isSome = false) :
    ¬ Mirrors (g.set (m, market) side) (log ++ [.acquired k m market side]) := by
  intro hmirrors
  have hopen := (hmirrors m market).mp (by simp)
  rw [commandedSince_snoc] at hopen
  rcases hopen with ⟨k', side', he⟩ | ⟨hold, -⟩
  · cases he
  · have hheld := (h m market).mpr hold
    rw [hfree] at hheld
    cases hheld

/-! ## One frame with faults -/

inductive Delivery where
  | delivered
  /-- It raises and took no effect. -/
  | lost
  /-- It raises after it took effect. -/
  | unanswered
  deriving DecidableEq

/-- Which steps raise on the markets of a frame. -/
structure Faults where
  diagnostic : String → Delivery
  feature : String → Bool
  signing : String → Bool
  command : String → Delivery

def Faults.none : Faults := ⟨fun _ => .delivered, fun _ => false, fun _ => false, fun _ => .delivered⟩

/-- What the loop over the snapshots leaves: the gate, its acts, the snapshots the filter saw. -/
structure Pass where
  gate : Gate
  acts : List Act
  evaluated : List MomentumFrame

/-- A snapshot was evaluated, and its acts came first. -/
def Pass.behind (p : Pass) (snap : MomentumFrame) (acts : List Act) : Pass := ⟨p.gate, acts ++ p.acts, snap :: p.evaluated⟩

/-- The records published for the entries, and whether the loop came to its end. -/
def auditPass (f : Faults) (now : ℚ) : List SettledEntry → List DiagnosticRecord × Bool
  | [] => ([], true)
  | entry :: rest =>
    match audit now entry with
    | .error _ => ([], false)
    | .ok none => auditPass f now rest
    | .ok (some record) =>
      match f.diagnostic entry.marketID with
      | .delivered => (record :: (auditPass f now rest).1, (auditPass f now rest).2)
      | .lost => ([], false)
      | .unanswered => ([record], false)

section

variable (cfg : Settings) (verdict : MomentumFrame → Except Raised (Option Trigger))

def commandPass (f : Faults) (k : Nat) (g : Gate) : List MomentumFrame → Pass
  | [] => ⟨g, [], []⟩
  | snap :: rest =>
    if f.feature snap.marketID then ⟨g, [], []⟩
    else
      match verdict (withFeatures cfg snap) with
      | .error _ => ⟨g, [], [snap]⟩
      | .ok none => (commandPass f k g rest).behind snap []
      | .ok (some t) =>
        match g.tryAcquire snap.matchID t.marketID t.side with
        | (_, false) => (commandPass f k g rest).behind snap []
        | (g', true) =>
          if f.signing snap.marketID then ⟨g', [.acquired k snap.matchID t.marketID t.side], [snap]⟩
          else
            match f.command snap.marketID with
            | .delivered => (commandPass f k g' rest).behind snap
                [.acquired k snap.matchID t.marketID t.side, .command k snap.matchID t.marketID t.side]
            | .lost => ⟨g', [.acquired k snap.matchID t.marketID t.side], [snap]⟩
            | .unanswered => ⟨g', [.acquired k snap.matchID t.marketID t.side, .command k snap.matchID t.marketID t.side],
                [snap]⟩

/-- The frame is settled, audited, released and observed, and its triggers are sent, up to
    the first step that raises. -/
def auditedWith (s : Broker) (x : Received × Faults) : Broker :=
  { s with history := s.history ++ [x.1.frame], study := (collectSettled s.study x.1.frame).1
           log := s.log ++ (auditPass x.2 x.1.asof (collectSettled s.study x.1.frame).2).1.map (.diagnostic s.history.length) }

def observeWith (s : Broker) (x : Received × Faults) (k : Nat) : Broker :=
  let released := release s ⟨k, x.1.frame⟩
  let (study, snapshots) := observeMany cfg released.study x.1.frame x.1.asof
  let p := commandPass cfg verdict x.2 k released.gate snapshots
  { released with study := study, gate := p.gate, log := released.log ++ p.acts }

def serveWith (s : Broker) (x : Received × Faults) : Broker :=
  if (auditPass x.2 x.1.asof (collectSettled s.study x.1.frame).2).2 then
    observeWith cfg verdict (auditedWith s x) x s.history.length
  else auditedWith s x

/-- The snapshots of the frame's markets. -/
def snapshotsOf (s : Broker) (x : Received × Faults) : List MomentumFrame :=
  (observeMany cfg (collectSettled s.study x.1.frame).1 x.1.frame x.1.asof).2

/-- The snapshots the filter saw of them. -/
def evaluatedOf (s : Broker) (x : Received × Faults) : List MomentumFrame :=
  if (auditPass x.2 x.1.asof (collectSettled s.study x.1.frame).2).2 then
    (commandPass cfg verdict x.2 s.history.length (release (auditedWith s x) ⟨s.history.length, x.1.frame⟩).gate
      (snapshotsOf cfg s x)).evaluated
  else []

/-- The filter would execute on the snapshot, and its features do not raise. -/
def WouldExecute (f : Faults) (snap : MomentumFrame) : Prop :=
  f.feature snap.marketID = false ∧ ∃ t, verdict (withFeatures cfg snap) = .ok (some t)

inductive Fault where
  /-- The features or the filter. -/
  | computing
  | signing
  | publishing (effect : Bool)
  deriving DecidableEq

/-- The first step to raise in the loop, and the snapshots behind it. -/
def firstFault (f : Faults) (g : Gate) : List MomentumFrame → Option (Fault × List MomentumFrame)
  | [] => none
  | snap :: rest =>
    if f.feature snap.marketID then some (.computing, rest)
    else
      match verdict (withFeatures cfg snap) with
      | .error _ => some (.computing, rest)
      | .ok none => firstFault f g rest
      | .ok (some t) =>
        match g.tryAcquire snap.matchID t.marketID t.side with
        | (_, false) => firstFault f g rest
        | (g', true) =>
          if f.signing snap.marketID then some (.signing, rest)
          else
            match f.command snap.marketID with
            | .delivered => firstFault f g' rest
            | .lost => some (.publishing false, rest)
            | .unanswered => some (.publishing true, rest)

/-- The claimed position, if there is one, has its command all the same. -/
def Fault.harmless : Fault → Bool
  | .computing => true
  | .signing => false
  | .publishing effect => effect

/-- The first step of the frame to raise is harmless, and no eligible market is behind it. -/
def Undisturbed (s : Broker) (x : Received × Faults) : Prop :=
  ∀ y ∈ firstFault cfg verdict x.2 s.gate (snapshotsOf cfg s x),
    y.1.harmless = true ∧ ∀ snap ∈ y.2, ¬ WouldExecute cfg verdict x.2 snap

/-- After the frame the gate mirrors the commands, and its eligible markets were evaluated. -/
def Faultless (s : Broker) (x : Received × Faults) : Prop :=
  Mirrors (serveWith cfg verdict s x).gate (serveWith cfg verdict s x).log ∧
    ∀ snap ∈ snapshotsOf cfg s x, WouldExecute cfg verdict x.2 snap → snap ∈ evaluatedOf cfg verdict s x

variable {cfg verdict}

/-! ## What the loop keeps -/

theorem pass_mirrors (f : Faults) (k : Nat) (snaps : List MomentumFrame) : ∀ {g : Gate} {log : List Act}, Mirrors g log →
    (Mirrors (commandPass cfg verdict f k g snaps).gate (log ++ (commandPass cfg verdict f k g snaps).acts) ↔
      ∀ y ∈ firstFault cfg verdict f g snaps, y.1.harmless = true) := by
  induction snaps with
  | nil =>
    intro g log h
    simpa [commandPass, firstFault] using h
  | cons snap rest ih =>
    intro g log h
    by_cases hfeature : f.feature snap.marketID = true
    · simpa [commandPass, firstFault, hfeature, Fault.harmless] using h
    cases hv : verdict (withFeatures cfg snap) with
    | error x => simpa [commandPass, firstFault, hfeature, hv, Fault.harmless] using h
    | ok o =>
      cases o with
      | none => simpa [commandPass, firstFault, hfeature, hv, Pass.behind] using ih h
      | some t =>
        by_cases hheld : (g.get? (snap.matchID, t.marketID)).isSome = true
        · simpa [commandPass, firstFault, hfeature, hv, Gate.tryAcquire, hheld, Pass.behind] using ih h
        · rw [Bool.not_eq_true] at hheld
          have hbare := not_mirrors_acquired h k t.side hheld
          have hpaired := mirrors_command h k snap.matchID t.marketID t.side
          rw [List.append_assoc] at hpaired
          by_cases hsign : f.signing snap.marketID = true
          · simpa [commandPass, firstFault, hfeature, hv, Gate.tryAcquire, hheld, hsign, Fault.harmless] using hbare
          cases hsend : f.command snap.marketID with
          | delivered =>
            have hnext := ih hpaired
            rw [List.append_assoc] at hnext
            simpa [commandPass, firstFault, hfeature, hv, Gate.tryAcquire, hheld, hsign, hsend, Pass.behind] using hnext
          | lost =>
            simpa [commandPass, firstFault, hfeature, hv, Gate.tryAcquire, hheld, hsign, hsend, Fault.harmless] using hbare
          | unanswered =>
            simpa [commandPass, firstFault, hfeature, hv, Gate.tryAcquire, hheld, hsign, hsend, Fault.harmless] using hpaired

theorem behind_evaluated {P : MomentumFrame → Prop} {snap : MomentumFrame} {rest : List MomentumFrame} (hnew : snap ∉ rest)
    (p : Pass) (acts : List Act) :
    (∀ x ∈ snap :: rest, P x → x ∈ (p.behind snap acts).evaluated) ↔ ∀ x ∈ rest, P x → x ∈ p.evaluated := by
  constructor
  · intro h x hx hp
    rcases List.mem_cons.mp (h x (List.mem_cons_of_mem _ hx) hp) with he | hin
    · exact absurd (he ▸ hx) hnew
    · exact hin
  · intro h x hx hp
    rcases List.mem_cons.mp hx with he | hx
    · exact List.mem_cons.mpr (Or.inl he)
    · exact List.mem_cons_of_mem _ (h x hx hp)

theorem last_evaluated {P : MomentumFrame → Prop} {snap : MomentumFrame} {rest : List MomentumFrame} (hnew : snap ∉ rest) :
    (∀ x ∈ snap :: rest, P x → x ∈ [snap]) ↔ ∀ x ∈ rest, ¬ P x := by
  constructor
  · intro h x hx hp
    have he := List.mem_singleton.mp (h x (List.mem_cons_of_mem _ hx) hp)
    exact hnew (he ▸ hx)
  · intro h x hx hp
    rcases List.mem_cons.mp hx with he | hx
    · exact List.mem_singleton.mpr he
    · exact absurd hp (h x hx)

theorem pass_evaluated (f : Faults) (k : Nat) {snaps : List MomentumFrame} (hnodup : snaps.Nodup) : ∀ (g : Gate),
    ((∀ snap ∈ snaps, WouldExecute cfg verdict f snap → snap ∈ (commandPass cfg verdict f k g snaps).evaluated) ↔
      ∀ y ∈ firstFault cfg verdict f g snaps, ∀ snap ∈ y.2, ¬ WouldExecute cfg verdict f snap) := by
  induction snaps with
  | nil => intro g; simp [firstFault]
  | cons snap rest ih =>
    intro g
    obtain ⟨hnew, hrest⟩ := List.nodup_cons.mp hnodup
    have hlast := last_evaluated (P := WouldExecute cfg verdict f) hnew
    by_cases hfeature : f.feature snap.marketID = true
    · have hself : ¬ WouldExecute cfg verdict f snap := fun h => by simp [h.1] at hfeature
      simp [commandPass, firstFault, hfeature, hself]
    cases hv : verdict (withFeatures cfg snap) with
    | error x => simpa [commandPass, firstFault, hfeature, hv] using hlast
    | ok o =>
      cases o with
      | none =>
        have hnext := (behind_evaluated hnew (commandPass cfg verdict f k g rest) []).trans (ih hrest g)
        simpa only [commandPass, firstFault, hfeature, hv, Bool.false_eq_true, if_false] using hnext
      | some t =>
        by_cases hheld : (g.get? (snap.matchID, t.marketID)).isSome = true
        · have hnext := (behind_evaluated hnew (commandPass cfg verdict f k g rest) []).trans (ih hrest g)
          simpa only [commandPass, firstFault, hfeature, hv, Gate.tryAcquire, hheld, Bool.false_eq_true, if_false, if_true]
            using hnext
        · by_cases hsign : f.signing snap.marketID = true
          · simpa [commandPass, firstFault, hfeature, hv, Gate.tryAcquire, hheld, hsign] using hlast
          cases hsend : f.command snap.marketID with
          | delivered =>
            have hnext := (behind_evaluated hnew (commandPass cfg verdict f k (g.set (snap.matchID, t.marketID) t.side) rest)
              [.acquired k snap.matchID t.marketID t.side, .command k snap.matchID t.marketID t.side]).trans
              (ih hrest (g.set (snap.matchID, t.marketID) t.side))
            simpa only [commandPass, firstFault, hfeature, hv, Gate.tryAcquire, hheld, hsign, hsend, Bool.false_eq_true, if_false]
              using hnext
          | lost => simpa [commandPass, firstFault, hfeature, hv, Gate.tryAcquire, hheld, hsign, hsend] using hlast
          | unanswered => simpa [commandPass, firstFault, hfeature, hv, Gate.tryAcquire, hheld, hsign, hsend] using hlast

/-! ## What a frame keeps -/

theorem auditedWith_study (s : Broker) (x : Received × Faults) :
    (auditedWith s x).study = (collectSettled s.study x.1.frame).1 := by rw [auditedWith]

theorem release_mirrors {s : Broker} (h : Mirrors s.gate s.log) (item : Item) :
    Mirrors (release s item).gate (release s item).log := by
  unfold release
  split
  · exact h
  · exact mirrors_release h _ _

theorem snapshotsOf_final (s : Broker) {x : Received × Faults} (h : x.1.frame.isFinal = true) : snapshotsOf cfg s x = [] := by
  rw [snapshotsOf, observeMany_none cfg _ (Frame.observed_final h)]

/-- The markets of a frame are different, and so are its snapshots. -/
theorem snapshotsOf_nodup (s : Broker) (x : Received × Faults) : (snapshotsOf cfg s x).Nodup := by
  rw [snapshotsOf]
  cases ho : x.1.frame.observed with
  | none =>
    rw [observeMany_none cfg _ ho]
    exact List.nodup_nil
  | some y =>
    obtain ⟨m, clock⟩ := y
    rw [observeMany_some cfg _ ho]
    refine List.Nodup.of_map MomentumFrame.marketID ?_
    rw [List.map_map]
    exact x.1.frame.markets.nodup

/-- A frame with snapshots releases nothing. -/
theorem release_snapshots (s : Broker) {x : Received × Faults} (h : snapshotsOf cfg s x ≠ []) (item : Item)
    (hitem : item.frame = x.1.frame) : release (auditedWith s x) item = auditedWith s x := by
  have hopen : item.frame.closes = none := by
    cases hc : item.frame.closes with
    | none => rfl
    | some m =>
      rw [hitem] at hc
      exact absurd (snapshotsOf_final s (Frame.closes_final hc)) h
  simp only [release, hopen]

theorem auditedWith_mirrors {s : Broker} (h : Mirrors s.gate s.log) (x : Received × Faults) :
    Mirrors (auditedWith s x).gate (auditedWith s x).log := mirrors_diagnostics h _ _

/-- The fault a frame meets does not depend on what it releases. -/
theorem firstFault_released (s : Broker) (x : Received × Faults) (item : Item) (hitem : item.frame = x.1.frame) :
    firstFault cfg verdict x.2 (release (auditedWith s x) item).gate (snapshotsOf cfg s x) =
      firstFault cfg verdict x.2 s.gate (snapshotsOf cfg s x) := by
  by_cases hsnaps : snapshotsOf cfg s x = []
  · rw [hsnaps]
    rfl
  · rw [release_snapshots s hsnaps item hitem]
    rfl

/-- After a frame whose gate mirrored the commands: once more, exactly when nothing disturbed it. -/
theorem faultless_iff {s : Broker} (h : Mirrors s.gate s.log) (x : Received × Faults) :
    Faultless cfg verdict s x ↔ Undisturbed cfg verdict s x := by
  have haudited := auditedWith_mirrors h x
  by_cases hthrough : (auditPass x.2 x.1.asof (collectSettled s.study x.1.frame).2).2 = true
  · have hreleased := release_mirrors haudited ⟨s.history.length, x.1.frame⟩
    have hsnaps : (observeMany cfg (release (auditedWith s x) ⟨s.history.length, x.1.frame⟩).study x.1.frame x.1.asof).2 =
        snapshotsOf cfg s x := by rw [release_study, auditedWith_study, snapshotsOf]
    have hmirrors := @pass_mirrors cfg verdict x.2 s.history.length (snapshotsOf cfg s x) _ _ hreleased
    have hevaluated := @pass_evaluated cfg verdict x.2 s.history.length (snapshotsOf cfg s x) (snapshotsOf_nodup s x)
      (release (auditedWith s x) ⟨s.history.length, x.1.frame⟩).gate
    rw [firstFault_released s x _ rfl] at hmirrors hevaluated
    simp only [Faultless, serveWith, evaluatedOf, if_pos hthrough, observeWith, hsnaps, hmirrors, hevaluated]
    exact ⟨fun hall y hy => ⟨hall.1 y hy, hall.2 y hy⟩, fun hall => ⟨fun y hy => (hall y hy).1, fun y hy => (hall y hy).2⟩⟩
  · -- an audit has entries only on a frame that has no snapshots
    have hfinal : x.1.frame.isFinal = true := by
      apply collectSettled_entries s.study
      intro hnone
      rw [hnone] at hthrough
      exact hthrough rfl
    simp only [Faultless, Undisturbed, serveWith, if_neg hthrough, snapshotsOf_final s hfinal, firstFault]
    simpa using haudited

/-- After every frame of a run, whatever raises in it, the gate mirrors the commands and the
    eligible markets were evaluated, exactly when nothing disturbed any of the frames. -/
theorem mirrors_iff (cfg : Settings) (verdict : MomentumFrame → Except Raised (Option Trigger)) (n : Nat)
    (xs : List (Received × Faults)) :
    Meets (serveWith cfg verdict) (Faultless cfg verdict) (start n) xs ↔
      Meets (serveWith cfg verdict) (Undisturbed cfg verdict) (start n) xs := by
  refine meets_congr (fun s : Broker => Mirrors s.gate s.log) (fun s x h => faultless_iff h x) ?_ (mirrors_start n)
  intro s x _ hfaultless
  exact hfaultless.1

/-! ## No faults -/

theorem auditPass_none (now : ℚ) (entries : List SettledEntry) : auditPass Faults.none now entries = auditAll now entries := by
  induction entries with
  | nil => rfl
  | cons entry rest ih =>
    rw [auditPass, auditAll, ih]
    rfl

theorem commandPass_none (k : Nat) (snaps : List MomentumFrame) : ∀ (g : Gate),
    ((commandPass cfg verdict Faults.none k g snaps).gate, (commandPass cfg verdict Faults.none k g snaps).acts) =
      commandAll cfg verdict k g snaps := by
  induction snaps with
  | nil => intro g; rfl
  | cons snap rest ih =>
    intro g
    simp only [commandPass, commandAll, Faults.none, Bool.false_eq_true, if_false]
    cases verdict (withFeatures cfg snap) with
    | error x => rfl
    | ok o =>
      cases o with
      | none => exact ih g
      | some t =>
        by_cases hheld : (g.get? (snap.matchID, t.marketID)).isSome = true
        · simp only [Gate.tryAcquire, hheld, if_true]
          exact ih g
        · simp only [Gate.tryAcquire, hheld, ← ih]
          rfl

/-- Without faults it is the worker's frame. -/
theorem serveWith_none (s : Broker) (r : Received) : serveWith cfg verdict s (r, Faults.none) = serve cfg verdict s r := by
  have haudited : auditedWith s (r, Faults.none) = audited s r := by simp only [auditedWith, audited, auditPass_none]
  have hobserved : observeWith cfg verdict (audited s r) (r, Faults.none) s.history.length =
      observeAll cfg verdict (audited s r) ⟨s.history.length, r.frame⟩ r.asof := by
    simp only [observeWith, observeAll, ← commandPass_none]
  simp only [serveWith, serve, auditPass_none, haudited, hobserved]

/-- The loop is the same under two filters that agree on its snapshots. -/
theorem firstFault_congr {other : MomentumFrame → Except Raised (Option Trigger)} (f : Faults) (snaps : List MomentumFrame)
    (h : ∀ x ∈ snaps, verdict (withFeatures cfg x) = other (withFeatures cfg x)) : ∀ (g : Gate),
    firstFault cfg verdict f g snaps = firstFault cfg other f g snaps := by
  induction snaps with
  | nil => intro g; rfl
  | cons snap rest ih =>
    intro g
    have hrest := ih fun x hx => h x (List.mem_cons_of_mem _ hx)
    simp only [firstFault, h snap List.mem_cons_self, hrest]

end

/-- A frame whose command is lost. -/
def disconnected : Received × Faults := (⟨quoted "31'" 0, 60⟩, { Faults.none with command := fun _ => .lost })

/-- Under the default filter its market is held without a command. -/
theorem a_lost_command_blocks_the_market :
    ¬ Meets (serveWith Settings.default (filterVerdict FilterSettings.default))
      (Faultless Settings.default (filterVerdict FilterSettings.default)) (start 4) [disconnected, (⟨quoted "32'" 0, 120⟩, Faults.none)] := by
  intro h
  obtain ⟨hfirst, -⟩ := h
  have hundisturbed := (faultless_iff (mirrors_start 4) disconnected).mp hfirst
  have hfavoured : ∀ x ∈ snapshotsOf Settings.default (start 4) disconnected, Favoured (withFeatures Settings.default x) := by
    decide +kernel
  have hsame := @firstFault_congr Settings.default (filterVerdict FilterSettings.default) betHome
    disconnected.2 _ (fun x hx => filterVerdict_favoured (hfavoured x hx)) (start 4).gate
  have hlost : firstFault Settings.default betHome disconnected.2 (start 4).gate
      (snapshotsOf Settings.default (start 4) disconnected) = some (.publishing false, []) := by decide +kernel
  have hharmless := hundisturbed (.publishing false, []) (hsame.trans hlost)
  cases hharmless.1

end CasuyaLive.Analytics
