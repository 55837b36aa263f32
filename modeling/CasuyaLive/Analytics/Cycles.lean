/-
  CasuyaLive.Analytics.Cycles — one live position a market and cycle, over every
  interleaving of the analytics workers (analytics-engine-py, src/main.py: `_worker`).

  `OnePerCycle`: between two places of the queue with no FULLTIME frame of a match between
  them, one command a market goes out at most. `NoneLate`: no command of a frame ahead of a
  FULLTIME frame goes out after that frame released its match.

  Both fail: a FULLTIME frame that waits for its diagnostics releases its match late, over
  a position of the next cycle (`a_late_release_trades_twice`), and a command can be still
  unsent when the match is released (`a_command_after_the_release`). `one_position`: they
  hold of every run whose releases find no position taken by a frame behind them and no
  command still to come from a frame ahead of them (`OnTime`).
-/

import CasuyaLive.Analytics.Worker

namespace CasuyaLive.Analytics

open CasuyaLive.Lib

section

variable (cfg : Settings) (verdict : MomentumFrame → Except Raised (Option Trigger))

/-- Whether the loop over the snapshots comes to one that should execute. -/
def triggers : List MomentumFrame → Bool
  | [] => false
  | snap :: rest =>
    match verdict (withFeatures cfg snap) with
    | .error _ => false
    | .ok none => triggers rest
    | .ok (some _) => true

/-- The place of the worker's frame, when it may still send a command for the match. -/
def owing (m : String) : Phase → Option Nat
  | .idle => none
  | .diagnosing _ _ _ _ => none
  | .commanding item m' _ rest sent =>
    if m' == m && (!sent || triggers cfg verdict rest) then some item.index else none

def unsent (k : Nat) (m market : String) : Phase → Bool
  | .idle => false
  | .diagnosing _ _ _ _ => false
  | .commanding item m' t _ sent => !sent && item.index == k && m' == m && t.marketID == market

/-- The FULLTIME frame whose match is released once these entries are audited. -/
def releasedAfter (now : ℚ) (item : Item) (entries : List SettledEntry) : Option (Nat × String) :=
  match nextRecord now entries with
  | .error _ => none
  | .ok (some _) => none
  | .ok none => item.frame.closes.map fun m => (item.index, m)

/-- The release a turn makes: the place of the frame, and the match. -/
def releasing (s : Broker) : Event → Option (Nat × String)
  | .get w now =>
    match s.workers[w]?, s.queue with
    | some .idle, item :: _ => releasedAfter now item (collectSettled s.study item.frame).2
    | _, _ => none
  | .resume w now =>
    match s.workers[w]? with
    | some (.diagnosing item _ rest true) => releasedAfter now item rest
    | _ => none
  | .enqueue _ => none
  | .send _ => none
  | .fail _ => none

/-- The place of the frame that took a position of the match. -/
def takenBy (m : String) : Act → Option Nat
  | .acquired k m' _ _ => if m' == m then some k else none
  | .released _ _ => none
  | .command _ _ _ _ => none
  | .diagnostic _ _ => none

/-- No position of the match was taken by a frame behind the place `r`, and no worker may
    still send a command for a frame ahead of it. -/
def Settled (s : Broker) (r : Nat) (m : String) : Prop :=
  (∀ a ∈ s.log, ∀ k ∈ takenBy m a, k < r) ∧ ∀ p ∈ s.workers, ∀ k ∈ owing cfg verdict m p, r < k

instance (s : Broker) (r : Nat) (m : String) : Decidable (Settled cfg verdict s r m) := inferInstanceAs (Decidable (_ ∧ _))

/-- A release comes when its match is settled up to its frame. -/
def OnTime (s : Broker) (e : Event) : Prop := ∀ x ∈ releasing s e, Settled cfg verdict s x.1 x.2

instance (s : Broker) (e : Event) : Decidable (OnTime cfg verdict s e) :=
  inferInstanceAs (Decidable (∀ x ∈ releasing s e, Settled cfg verdict s x.1 x.2))

/-! ## Invariants -/

/-- A release that lies in the past: nothing ahead of it is still to come. -/
structure Past (s : Broker) (r : Nat) (m : String) : Prop where
  closes : s.history[r]?.bind Frame.closes = some m
  queue : ∀ q ∈ s.queue, r < q.index
  workers : ∀ p ∈ s.workers, ∀ k ∈ owing cfg verdict m p, r < k

/-- A frame out of the queue. -/
structure Known (history : List Frame) (queue : List Item) (item : Item) : Prop where
  frame : history[item.index]? = some item.frame
  first : ∀ q ∈ queue, item.index < q.index

def Sound (history : List Frame) (queue : List Item) : Phase → Prop
  | .idle => True
  | .diagnosing item _ _ _ => Known history queue item ∧ item.frame.isFinal = true
  | .commanding item m _ rest _ => Known history queue item ∧ ∀ x ∈ rest, x.matchID = m

structure Inv (s : Broker) : Prop where
  queued : ∀ q ∈ s.queue, s.history[q.index]? = some q.frame
  sorted : s.queue.Pairwise fun a b => a.index < b.index
  sound : ∀ p ∈ s.workers, Sound s.history s.queue p
  gate : s.gate = gateOf s.log
  clear : Each Clear s.log
  past : ∀ r m, Act.released r m ∈ s.log → Past cfg verdict s r m
  counted : ∀ k m market,
    s.log.countP (isCommand k m market) + s.workers.countP (unsent k m market) ≤ s.log.countP (isAcquired k m market)

variable {cfg verdict}

theorem mem_workers_set {l : List Phase} {w : Nat} {p q : Phase} (h : q ∈ l.set w p) : q = p ∨ q ∈ l :=
  (List.mem_or_eq_of_mem_set h).symm

theorem countP_set_le (f : Phase → Bool) (l : List Phase) (w : Nat) (p : Phase) :
    (l.set w p).countP f ≤ l.countP f + if f p then 1 else 0 := by
  by_cases h : w < l.length
  · rw [List.countP_set h]
    omega
  · rw [List.set_eq_of_length_le (by omega)]
    omega

/-- What follows a log of clear acts. -/
theorem gate_note {s : Broker} (h : s.gate = gateOf s.log) (a : Act) : applyAct s.gate a = gateOf (s.log ++ [a]) := by
  rw [gateOf_append, ← h]
  rfl

theorem released_note {log : List Act} {a : Act} (ha : ∀ r m, a ≠ .released r m) {r : Nat} {m : String}
    (h : Act.released r m ∈ log ++ [a]) : Act.released r m ∈ log := by
  rcases List.mem_append.mp h with h | h
  · exact h
  · exact absurd (List.mem_singleton.mp h).symm (ha r m)

/-- A worker moves on to a phase with nothing left to send. -/
theorem inv_setPhase {s : Broker} (h : Inv cfg verdict s) (w : Nat) {p : Phase} (hs : Sound s.history s.queue p)
    (hn : ∀ k m market, unsent k m market p = false)
    (ho : ∀ m, ∀ k ∈ owing cfg verdict m p, ∀ r, Act.released r m ∈ s.log → r < k) : Inv cfg verdict (setPhase s w p) := by
  refine ⟨h.queued, h.sorted, fun q hq => ?_, h.gate, h.clear, fun r m hr => ?_, fun k m market => ?_⟩
  · rcases mem_workers_set hq with rfl | hq
    · exact hs
    · exact h.sound q hq
  · obtain ⟨hc, hqueue, hworkers⟩ := h.past r m hr
    refine ⟨hc, hqueue, fun q hq k hk => ?_⟩
    rcases mem_workers_set hq with rfl | hq
    · exact ho m k hk r hr
    · exact hworkers q hq k hk
  · have hle := countP_set_le (unsent k m market) s.workers w p
    have hold := h.counted k m market
    rw [hn k m market] at hle
    simp only [setPhase]
    simp only [Bool.false_eq_true, if_false] at hle
    omega

theorem inv_idle {s : Broker} (h : Inv cfg verdict s) (w : Nat) : Inv cfg verdict (setPhase s w .idle) :=
  inv_setPhase h w trivial (fun _ _ _ => rfl) (fun m k hk => by cases hk)

/-- Publishing a diagnostic leaves everything as it is. -/
theorem inv_diagnostic {s : Broker} (h : Inv cfg verdict s) (k : Nat) (record : DiagnosticRecord) :
    Inv cfg verdict (note s (.diagnostic k record)) := by
  refine ⟨h.queued, h.sorted, h.sound, ?_, each_concat.mpr ⟨h.clear, trivial⟩, fun r m hr => ?_, fun k m market => ?_⟩
  · exact h.gate.trans (by simp only [note, gateOf_append]; rfl)
  · obtain ⟨hc, hqueue, hworkers⟩ := h.past r m (released_note (by simp) hr)
    exact ⟨hc, hqueue, hworkers⟩
  · simpa [note, isCommand, isAcquired] using h.counted k m market

/-- A worker whose command is out owes no more than before. -/
theorem owing_sent {item : Item} {m m' : String} {t : Trigger} {rest : List MomentumFrame} {k : Nat}
    (h : k ∈ owing cfg verdict m' (.commanding item m t rest true)) :
    k ∈ owing cfg verdict m' (.commanding item m t rest false) := by
  simp only [owing] at h ⊢
  by_cases hm : (m == m') = true
  · simp only [hm, Bool.not_true, Bool.false_or, Bool.true_and] at h
    simp only [hm, Bool.not_false, Bool.true_or, Bool.and_true, if_true]
    split at h
    · exact h
    · cases h
  · simp [hm] at h

/-- Its command takes the place of the one it had to send. -/
theorem counted_sent {s : Broker} (h : Inv cfg verdict s) {w : Nat} {item : Item} {m : String} {t : Trigger}
    {rest : List MomentumFrame} (hw : s.workers[w]? = some (.commanding item m t rest false)) (k : Nat) (m' market : String) :
    (s.log ++ [Act.command item.index m t.marketID t.side]).countP (isCommand k m' market) +
      (s.workers.set w (.commanding item m t rest true)).countP (unsent k m' market) ≤
      s.log.countP (isAcquired k m' market) := by
  obtain ⟨hlen, hget⟩ := List.getElem?_eq_some_iff.mp hw
  have hmem : Phase.commanding item m t rest false ∈ s.workers := List.mem_of_getElem? hw
  have hold := h.counted k m' market
  have hpos : unsent k m' market (.commanding item m t rest false) = true → 0 < s.workers.countP (unsent k m' market) :=
    fun hu => List.countP_pos_iff.mpr ⟨_, hmem, hu⟩
  have hsame : unsent k m' market (.commanding item m t rest false) =
      isCommand k m' market (.command item.index m t.marketID t.side) := by simp [unsent, isCommand]
  have hnone : unsent k m' market (.commanding item m t rest true) = false := rfl
  rw [List.countP_append, List.countP_set hlen, hget, hnone]
  rw [hsame] at hpos ⊢
  by_cases hc : isCommand k m' market (.command item.index m t.marketID t.side) = true
  · have := hpos hc
    simp only [hc, if_true, List.countP_singleton, Bool.false_eq_true, if_false]
    omega
  · simp only [hc, List.countP_singleton, Bool.false_eq_true, if_false]
    omega

/-- Publishing the command of a claimed position. -/
theorem inv_command {s : Broker} (h : Inv cfg verdict s) {w : Nat} {item : Item} {m : String} {t : Trigger}
    {rest : List MomentumFrame} (hw : s.workers[w]? = some (.commanding item m t rest false)) :
    Inv cfg verdict (note (setPhase s w (.commanding item m t rest true)) (.command item.index m t.marketID t.side)) := by
  have hmem : Phase.commanding item m t rest false ∈ s.workers := List.mem_of_getElem? hw
  have howes : owing cfg verdict m (.commanding item m t rest false) = some item.index := by simp [owing]
  have hcounts := counted_sent h hw
  refine ⟨h.queued, h.sorted, fun q hq => ?_, ?_, each_concat.mpr ⟨h.clear, ?_, ?_⟩, fun r m' hr => ?_, fun k m' market => ?_⟩
  · rcases mem_workers_set hq with rfl | hq
    · have hwas : Sound s.history s.queue (.commanding item m t rest false) := h.sound _ hmem
      exact hwas
    · exact h.sound q hq
  · exact h.gate.trans (by simp only [note, setPhase, gateOf_append]; rfl)
  · have hold := hcounts item.index m t.marketID
    have hself : isCommand item.index m t.marketID (.command item.index m t.marketID t.side) = true := by simp [isCommand]
    simp only [List.countP_append, List.countP_singleton, hself, if_true] at hold
    simp only [setPhase]
    omega
  · intro r hr
    exact (h.past r m hr).workers _ hmem _ howes
  · obtain ⟨hc, hqueue, hworkers⟩ := h.past r m' (released_note (by simp) hr)
    refine ⟨hc, hqueue, fun q hq k hk => ?_⟩
    rcases mem_workers_set hq with rfl | hq
    · exact hworkers _ hmem k (owing_sent hk)
    · exact hworkers q hq k hk
  · have hold := hcounts k m' market
    simp only [note, setPhase]
    rw [List.countP_append (p := isAcquired k m' market)]
    exact hold.trans (Nat.le_add_right _ _)

/-! ## Claims -/

theorem nextTrigger_spec {g : Gate} {snaps : List MomentumFrame} {g' : Gate} {m : String} {t : Trigger}
    {rest : List MomentumFrame} (h : nextTrigger cfg verdict g snaps = some (g', m, t, rest)) :
    g.get? (m, t.marketID) = none ∧ g' = g.set (m, t.marketID) t.side ∧ (∃ x ∈ snaps, x.matchID = m) ∧
      (∀ x ∈ rest, x ∈ snaps) ∧ triggers cfg verdict snaps = true := by
  induction snaps with
  | nil => cases h
  | cons snap snaps ih =>
    unfold nextTrigger at h
    cases hv : verdict (withFeatures cfg snap) with
    | error x =>
      rw [hv] at h
      cases h
    | ok o =>
      cases o with
      | none =>
        simp only [hv] at h
        obtain ⟨hfree, hset, ⟨x, hx, hm⟩, hrest, ht⟩ := ih h
        refine ⟨hfree, hset, ⟨x, List.mem_cons_of_mem _ hx, hm⟩, fun y hy => List.mem_cons_of_mem _ (hrest y hy), ?_⟩
        simpa [triggers, hv] using ht
      | some t' =>
        simp only [hv] at h
        have hyes : triggers cfg verdict (snap :: snaps) = true := by simp [triggers, hv]
        cases hg : g.get? (snap.matchID, t'.marketID) with
        | some held =>
          have hno : g.tryAcquire snap.matchID t'.marketID t'.side = (g, false) := by simp [Gate.tryAcquire, hg]
          rw [hno] at h
          obtain ⟨hfree, hset, ⟨x, hx, hm⟩, hrest, -⟩ := ih h
          exact ⟨hfree, hset, ⟨x, List.mem_cons_of_mem _ hx, hm⟩, fun y hy => List.mem_cons_of_mem _ (hrest y hy), hyes⟩
        | none =>
          rw [Gate.tryAcquire_free hg] at h
          simp only [Option.some.injEq, Prod.mk.injEq] at h
          obtain ⟨rfl, rfl, rfl, rfl⟩ := h
          exact ⟨hg, rfl, ⟨snap, List.mem_cons_self, rfl⟩, fun y hy => List.mem_cons_of_mem _ hy, hyes⟩

/-- The loop over the snapshots of a frame that stands behind every release of their match. -/
theorem inv_trigger {s : Broker} (h : Inv cfg verdict s) (w : Nat) {item : Item} (hk : Known s.history s.queue item)
    {snaps : List MomentumFrame} (hm : ∀ x ∈ snaps, ∀ y ∈ snaps, x.matchID = y.matchID)
    (hb : triggers cfg verdict snaps = true → ∀ x ∈ snaps, ∀ r, Act.released r x.matchID ∈ s.log → r < item.index) :
    Inv cfg verdict (trigger cfg verdict s w item snaps) := by
  unfold trigger
  split
  · exact inv_idle h w
  · rename_i gate m t rest hn
    obtain ⟨hfree, hset, ⟨x, hx, rfl⟩, hrest, ht⟩ := nextTrigger_spec hn
    have hbehind := hb ht x hx
    refine ⟨h.queued, h.sorted, fun q hq => ?_, ?_, each_concat.mpr ⟨h.clear, ?_, hbehind⟩, fun r m hr => ?_, fun k m market => ?_⟩
    · rcases mem_workers_set hq with rfl | hq
      · exact ⟨hk, fun y hy => hm y (hrest y hy) x hx⟩
      · exact h.sound q hq
    · simp only [note, setPhase]
      rw [← gate_note h.gate, applyAct, Gate.tryAcquire_free hfree, hset]
    · show (gateOf s.log).get? (x.matchID, t.marketID) = none
      rw [← h.gate]
      exact hfree
    · obtain ⟨hc, hqueue, hworkers⟩ := h.past r m (released_note (by simp) hr)
      refine ⟨hc, hqueue, fun q hq k hk => ?_⟩
      rcases mem_workers_set hq with rfl | hq
      · simp only [owing, Bool.not_false, Bool.true_or, Bool.and_true, Option.mem_def] at hk
        split at hk
        · rename_i he
          cases hk
          rw [← beq_iff_eq.mp he] at hr
          exact hbehind r (released_note (by simp) hr)
        · cases hk
      · exact hworkers q hq k hk
    · have hold := h.counted k m market
      have hle := countP_set_le (unsent k m market) s.workers w (.commanding item x.matchID t rest false)
      have hsame : unsent k m market (.commanding item x.matchID t rest false) =
          isAcquired k m market (.acquired item.index x.matchID t.marketID t.side) := by simp [unsent, isAcquired]
      have hno : isCommand k m market (.acquired item.index x.matchID t.marketID t.side) = false := rfl
      rw [hsame] at hle
      simp only [note, setPhase, List.countP_append, List.countP_singleton, hno, Bool.false_eq_true, if_false]
      omega

/-! ## Turns -/

theorem inv_study {s : Broker} (h : Inv cfg verdict s) (study : Study) : Inv cfg verdict { s with study := study } :=
  ⟨h.queued, h.sorted, h.sound, h.gate, h.clear, fun r m hr =>
    ⟨(h.past r m hr).closes, (h.past r m hr).queue, (h.past r m hr).workers⟩, h.counted⟩

/-- A release on time. -/
theorem inv_release {s : Broker} (h : Inv cfg verdict s) {item : Item} (hk : Known s.history s.queue item)
    (ho : ∀ m ∈ item.frame.closes, Settled cfg verdict s item.index m) : Inv cfg verdict (release s item) := by
  unfold release
  cases hc : item.frame.closes with
  | none => exact h
  | some m =>
    obtain ⟨hahead, howing⟩ := ho m hc
    refine ⟨h.queued, h.sorted, h.sound, ?_, each_concat.mpr ⟨h.clear, ?_⟩, fun r m' hr => ?_, fun k m' market => ?_⟩
    · exact gate_note h.gate (.released item.index m)
    · intro k market side ha
      exact hahead _ ha k (by simp [takenBy])
    · rcases List.mem_append.mp hr with hr | hr
      · obtain ⟨hc', hqueue, hworkers⟩ := h.past r m' hr
        exact ⟨hc', hqueue, hworkers⟩
      · simp only [List.mem_singleton, Act.released.injEq] at hr
        obtain ⟨rfl, rfl⟩ := hr
        refine ⟨?_, hk.first, howing⟩
        show s.history[item.index]?.bind Frame.closes = some m'
        rw [hk.frame]
        exact hc
    · simpa [note, isCommand, isAcquired] using h.counted k m' market

theorem inv_releaseAndObserve {s : Broker} (h : Inv cfg verdict s) (w : Nat) {item : Item}
    (hk : Known s.history s.queue item) (now : ℚ)
    (hb : item.frame.isFinal = true ∨ ∀ r m, Act.released r m ∈ s.log → r < item.index)
    (ho : ∀ m ∈ item.frame.closes, Settled cfg verdict s item.index m) :
    Inv cfg verdict (releaseAndObserve cfg verdict s w item now) := by
  have hreleased := inv_release h hk ho
  have hfields : (release s item).history = s.history ∧ (release s item).queue = s.queue := by
    unfold release
    split <;> exact ⟨rfl, rfl⟩
  have hknown : Known (release s item).history (release s item).queue item := by
    rw [hfields.1, hfields.2]
    exact hk
  show Inv cfg verdict (trigger cfg verdict
    { release s item with study := (observeMany cfg (release s item).study item.frame now).1 } w item
    (observeMany cfg (release s item).study item.frame now).2)
  refine inv_trigger (inv_study hreleased (observeMany cfg (release s item).study item.frame now).1) w hknown
    (fun x hx y hy => ?_) (fun ht x hx r hr => ?_)
  · have hxm := observeMany_matchID cfg _ item.frame now x hx
    rw [observeMany_matchID cfg _ item.frame now y hy] at hxm
    exact (Option.some.inj hxm).symm
  · by_cases hf : item.frame.isFinal = true
    · -- a final frame is not observed
      rw [observeMany_none cfg _ (Frame.observed_final hf)] at hx
      cases hx
    · have hnone : item.frame.closes = none := by
        cases hc : item.frame.closes with
        | none => rfl
        | some m => exact absurd (Frame.closes_final hc) hf
      have hsame : release s item = s := by simp only [release, hnone]
      rw [hsame] at hr
      exact (hb.resolve_left hf) r _ hr

theorem inv_audits {s : Broker} (h : Inv cfg verdict s) (w : Nat) {item : Item} (hk : Known s.history s.queue item) (now : ℚ)
    {entries : List SettledEntry} (hentries : entries ≠ [] → item.frame.isFinal = true)
    (hb : item.frame.isFinal = true ∨ ∀ r m, Act.released r m ∈ s.log → r < item.index)
    (ho : ∀ x ∈ releasedAfter now item entries, Settled cfg verdict s x.1 x.2) :
    Inv cfg verdict (audits cfg verdict s w item now entries) := by
  unfold audits
  split
  · exact inv_idle h w
  · rename_i record rest hn
    have hne : entries ≠ [] := by
      intro heq
      subst heq
      cases hn
    exact inv_setPhase h w ⟨hk, hentries hne⟩ (fun _ _ _ => rfl) (fun m k hk => by cases hk)
  · rename_i hn
    refine inv_releaseAndObserve h w hk now hb fun m hm => ?_
    exact ho (item.index, m) (by rw [releasedAfter, hn, Option.mem_def.mp hm]; rfl)

/-- The frame at the head of the queue stands behind every release. -/
theorem inv_take {s : Broker} (h : Inv cfg verdict s) {item : Item} {queue : List Item} (hq : s.queue = item :: queue) :
    Inv cfg verdict (take s item queue) ∧ Known s.history queue item ∧ ∀ r m, Act.released r m ∈ s.log → r < item.index := by
  have hmem : ∀ q ∈ queue, q ∈ s.queue := fun q hin => by
    rw [hq]
    exact List.mem_cons_of_mem _ hin
  have hhead : item ∈ s.queue := by
    rw [hq]
    exact List.mem_cons_self
  have hsorted := h.sorted
  rw [hq, List.pairwise_cons] at hsorted
  refine ⟨⟨fun q hin => h.queued q (hmem q hin), hsorted.2, fun p hp => ?_, h.gate, h.clear, fun r m hr => ?_, h.counted⟩,
    ⟨h.queued item hhead, hsorted.1⟩, fun r m hr => (h.past r m hr).queue item hhead⟩
  · have hs := h.sound p hp
    cases p with
    | idle => trivial
    | diagnosing i record rest sent => exact ⟨⟨hs.1.frame, fun q hin => hs.1.first q (hmem q hin)⟩, hs.2⟩
    | commanding i m t rest sent => exact ⟨⟨hs.1.frame, fun q hin => hs.1.first q (hmem q hin)⟩, hs.2⟩
  · obtain ⟨hc, hqueue, hworkers⟩ := h.past r m hr
    exact ⟨hc, fun q hin => hqueue q (hmem q hin), hworkers⟩

theorem lt_of_history {l : List Frame} {k : Nat} {f : Frame} (h : l[k]? = some f) : k < l.length :=
  (List.getElem?_eq_some_iff.mp h).1

theorem history_grows {l : List Frame} {k : Nat} {f : Frame} (h : l[k]? = some f) (g : Frame) : (l ++ [g])[k]? = some f := by
  rw [List.getElem?_append_left (lt_of_history h)]
  exact h

theorem inv_enqueue {s : Broker} (h : Inv cfg verdict s) (f : Frame) : Inv cfg verdict (enqueue s f) := by
  unfold enqueue
  split
  · have hlast : ∀ k, k < s.history.length → ∀ q ∈ s.queue ++ [⟨s.history.length, f⟩], (∀ q ∈ s.queue, k < q.index) →
        k < q.index := by
      intro k hk q hq hqueue
      rcases List.mem_append.mp hq with hq | hq
      · exact hqueue q hq
      · rw [List.mem_singleton.mp hq]
        exact hk
    have hknown : ∀ item, Known s.history s.queue item →
        Known (s.history ++ [f]) (s.queue ++ [⟨s.history.length, f⟩]) item := fun item hi =>
      ⟨history_grows hi.frame f, fun q hq => hlast _ (lt_of_history hi.frame) q hq hi.first⟩
    refine ⟨fun q hq => ?_, ?_, fun p hp => ?_, h.gate, h.clear, fun r m hr => ?_, h.counted⟩
    · rcases List.mem_append.mp hq with hq | hq
      · exact history_grows (h.queued q hq) f
      · rw [List.mem_singleton.mp hq]
        simp
    · rw [List.pairwise_append]
      refine ⟨h.sorted, List.pairwise_singleton _ _, fun a ha b hb => ?_⟩
      rw [List.mem_singleton.mp hb]
      exact lt_of_history (h.queued a ha)
    · have hs := h.sound p hp
      cases p with
      | idle => trivial
      | diagnosing i record rest sent => exact ⟨hknown i hs.1, hs.2⟩
      | commanding i m t rest sent => exact ⟨hknown i hs.1, hs.2⟩
    · obtain ⟨hc, hqueue, hworkers⟩ := h.past r m hr
      cases hg : s.history[r]? with
      | none => simp [hg] at hc
      | some g =>
        refine ⟨?_, fun q hq => hlast r (lt_of_history hg) q hq hqueue, hworkers⟩
        show (s.history ++ [f])[r]?.bind Frame.closes = some m
        rw [history_grows hg f, ← hg]
        exact hc
  · refine ⟨h.queued, h.sorted, h.sound, h.gate, h.clear, fun r m hr => ?_, h.counted⟩
    exact ⟨(h.past r m hr).closes, (h.past r m hr).queue, (h.past r m hr).workers⟩

/-- Every turn on time keeps the invariant. -/
theorem step_inv {s : Broker} (h : Inv cfg verdict s) (e : Event) (ho : OnTime cfg verdict s e) :
    Inv cfg verdict (step cfg verdict s e) := by
  cases e with
  | enqueue f => exact inv_enqueue h f
  | get w now =>
    simp only [OnTime, releasing] at ho
    simp only [step]
    split
    · rename_i item queue hw hq
      rw [hw, hq] at ho
      obtain ⟨hinv, hknown, hbehind⟩ := inv_take h hq
      exact inv_audits hinv w hknown now (collectSettled_entries s.study) (Or.inr hbehind) ho
    · exact h
  | send w =>
    simp only [step]
    split
    · rename_i item record rest hw
      have hs := h.sound _ (List.mem_of_getElem? hw)
      have hphase := inv_setPhase h w (p := .diagnosing item record rest true) hs (fun _ _ _ => rfl)
        (fun m k hk => by cases hk)
      exact inv_diagnostic hphase item.index record
    · rename_i item m t rest hw
      exact inv_command h hw
    · exact h
  | resume w now =>
    simp only [OnTime, releasing] at ho
    simp only [step]
    split
    · rename_i item record rest hw
      rw [hw] at ho
      obtain ⟨hknown, hfinal⟩ := h.sound _ (List.mem_of_getElem? hw)
      exact inv_audits h w hknown now (fun _ => hfinal) (Or.inl hfinal) ho
    · rename_i item m t rest hw
      have hmem := List.mem_of_getElem? hw
      obtain ⟨hknown, hmatch⟩ := h.sound _ hmem
      refine inv_trigger h w hknown (fun x hx y hy => (hmatch x hx).trans (hmatch y hy).symm) fun ht x hx r hr => ?_
      rw [hmatch x hx] at hr
      exact (h.past r m hr).workers _ hmem _ (by simp [owing, ht])
    · exact h
  | fail w =>
    simp only [step]
    split
    · exact inv_idle h w
    · exact inv_idle h w
    · exact h

theorem start_inv (n : Nat) : Inv cfg verdict (start n) := by
  refine ⟨by simp [start], List.Pairwise.nil, fun p hp => ?_, rfl, each_nil, fun r m hr => by simp [start] at hr,
    fun k m market => ?_⟩
  · rw [(List.mem_replicate.mp hp).2]
    trivial
  · have hnone : (List.replicate n Phase.idle).countP (unsent k m market) = 0 :=
      List.countP_eq_zero.mpr fun p hp => by simp [(List.mem_replicate.mp hp).2, unsent]
    simp [start, hnone]

/-! ## Whole runs -/

/-- Between two places of the queue with no FULLTIME frame of the match between them, one
    command for the market at most. -/
def OnePerCycle (s : Broker) : Prop :=
  ∀ m market lo hi, (∀ r, lo < r → r < hi → s.history[r]?.bind Frame.closes ≠ some m) →
    (s.log.filter (commandWithin lo hi m market)).length ≤ 1

/-- The place of the frame and the match of a command. -/
def commandOf : Act → Option (Nat × String)
  | .command k m _ _ => some (k, m)
  | .acquired _ _ _ _ => none
  | .released _ _ => none
  | .diagnostic _ _ => none

/-- The place of the frame that released the match. -/
def releaseOf (m : String) : Act → Option Nat
  | .released r m' => if m' == m then some r else none
  | .acquired _ _ _ _ => none
  | .command _ _ _ _ => none
  | .diagnostic _ _ => none

/-- No command of a frame ahead of a FULLTIME frame of its match after that one's release. -/
def NoneLate (s : Broker) : Prop :=
  Each (fun earlier a => ∀ c ∈ commandOf a, ∀ b ∈ earlier, ∀ r ∈ releaseOf c.2 b, ¬ c.1 < r) s.log

instance (s : Broker) : Decidable (NoneLate s) := inferInstanceAs (Decidable (Each _ _))

theorem onePerCycle_of_inv {s : Broker} (h : Inv cfg verdict s) : OnePerCycle s := by
  intro m market lo hi hopen
  apply one_command h.clear m market lo hi
  intro r hlo hhi hr
  exact hopen r hlo hhi (h.past r m hr).closes

theorem noneLate_of_inv {s : Broker} (h : Inv cfg verdict s) : NoneLate s := by
  refine Each.mono (fun earlier a _ hclear c hc b hb r hr => ?_) h.clear
  cases a with
  | acquired k m market side => cases hc
  | released k m => cases hc
  | diagnostic k record => cases hc
  | command k m market side =>
    cases hc
    cases b with
    | acquired k' m' market' side' => cases hr
    | command k' m' market' side' => cases hr
    | diagnostic k' record => cases hr
    | released r' m' =>
      simp only [releaseOf, Option.mem_def, Option.ite_none_right_eq_some, beq_iff_eq, Option.some.injEq] at hr
      obtain ⟨rfl, rfl⟩ := hr
      have hlt := hclear.2 r' hb
      omega

/-- In a run whose releases are all on time, every state has one position a market and cycle
    and no late command. -/
theorem one_position (n : Nat) (es : List Event) (h : Meets (step cfg verdict) (OnTime cfg verdict) (start n) es) :
    ∀ pre, pre <+: es → OnePerCycle (run cfg verdict (start n) pre) ∧ NoneLate (run cfg verdict (start n) pre) := by
  intro pre hpre
  have hinv := run_always (Inv cfg verdict) (fun s e hi ho => step_inv hi e ho) (start_inv n) h pre hpre
  exact ⟨onePerCycle_of_inv hinv, noneLate_of_inv hinv⟩

end

/-! ## One match, four workers -/

/-- One home quote at 5. -/
def homeAtFive : Quotes := ⟨[("home", some 5)], by decide⟩

/-- A frame of m1 with that market. -/
def quoted (clock : String) (away : Int) : Frame :=
  { matchID := some "m1"
    clock := some clock
    score := some ⟨some 0, some away⟩
    scoreHome := none
    scoreAway := none
    league := none
    homeTeam := none
    awayTeam := none
    shots := none
    shotsOnTarget := none
    dangerousAttacks := none
    possessionHome := none
    markets := ⟨[("1X2", homeAtFive)], by decide⟩ }

def betHome (_ : MomentumFrame) : Except Raised (Option Trigger) := .ok (some ⟨"1X2", "home"⟩)

/-- A frame, its FULLTIME and the next cycle's frame, one after another. -/
def oneByOne : List Event :=
  [.enqueue (quoted "31'" 0), .enqueue (quoted "FULLTIME" 1), .enqueue (quoted "1'" 0), .get 0 60, .send 0, .resume 0 61,
    .get 0 62, .send 0, .resume 0 63, .get 0 64, .send 0, .resume 0 65]

theorem one_worker_at_a_time_trades_once : OnePerCycle (run Settings.default betHome (start 4) oneByOne) ∧
    NoneLate (run Settings.default betHome (start 4) oneByOne) :=
  one_position 4 oneByOne (by decide +kernel) oneByOne (List.prefix_refl _)

/-! ## The filter in force -/

/-- The default filter takes a home quote of 5 whose score is not against it. -/
def Favoured (snap : MomentumFrame) : Prop :=
  snap.odds = ⟨[("home", 5)], by decide⟩ ∧ snap.marketID = "1X2" ∧
    0 ≤ rawScore FilterSettings.default (scoreInputs snap "home")

instance (snap : MomentumFrame) : Decidable (Favoured snap) := inferInstanceAs (Decidable (_ ∧ _ ∧ _))

theorem filterVerdict_favoured {snap : MomentumFrame} (h : Favoured snap) :
    filterVerdict FilterSettings.default snap = betHome snap := by
  obtain ⟨hodds, hmarket, hscore⟩ := h
  have htemp : 0 < FilterSettings.default.temperature := by decide +kernel
  have hcap : 1 / 2 ≤ FilterSettings.default.maxTrueProb := by decide +kernel
  obtain ⟨p, hp, hhalf⟩ := legProbability_half htemp hcap hscore
  have hhome : priceOf snap.odds "home" = 5 := by rw [hodds]; rfl
  have haway : priceOf snap.odds "away" = 0 := by rw [hodds]; rfl
  have htrue : trueProbability FilterSettings.default snap "home" = .ok p := by simpa [trueProbability] using hp
  have himplied : impliedProbability 5 = .ok (1 / 5) := by simp [impliedProbability]
  have hfirst : better FilterSettings.default snap none "home" = .ok (some ("home", p, 1 / 5)) := by
    have hrange : ¬ ((5 : ℚ) < FilterSettings.default.minOdds ∨ FilterSettings.default.maxOdds < 5) := by decide +kernel
    simp only [better, hhome, if_neg hrange, htrue, himplied, bind, Except.bind, pure, Except.pure]
  have hsecond : better FilterSettings.default snap (some ("home", p, 1 / 5)) "away" = .ok (some ("home", p, 1 / 5)) := by
    have hrange : (0 : ℚ) < FilterSettings.default.minOdds ∨ FilterSettings.default.maxOdds < 0 := by decide +kernel
    simp only [better, haway, if_pos hrange, pure, Except.pure]
  have hbest : bestSide FilterSettings.default snap = .ok ("home", p, 1 / 5) := by
    have hsides : sides FilterSettings.default = ["home", "away"] := rfl
    simp only [bestSide, hsides, List.foldlM_cons, List.foldlM_nil, hfirst, hsecond, bind, Except.bind, pure, Except.pure,
      Option.getD_some]
  have hquoted : snap.odds.entries.isEmpty = false := by rw [hodds]; rfl
  have hedge : (1 / 5 : ℝ) + FilterSettings.default.marginSlack < p := by
    have : (FilterSettings.default.marginSlack : ℝ) = 20 / 1000 := by simp [FilterSettings.default]
    rw [this]
    linarith
  have hside : ("home" : String) ≠ "" := by decide
  simp only [filterVerdict, evaluate, hquoted, hbest, hside, hedge, hmarket, betHome, bind, Except.bind, pure, Except.pure,
    Bool.false_eq_true, if_false, decide_true, if_true]

/-- A run under the default filter in which it sees only such snapshots. -/
theorem run_favoured (es : List Event)
    (h : Meets (step Settings.default betHome)
      (fun s e => ∀ x ∈ evaluated Settings.default s e, Favoured (withFeatures Settings.default x)) (start 4) es) :
    run Settings.default (filterVerdict FilterSettings.default) (start 4) es = run Settings.default betHome (start 4) es := by
  refine run_congr es (Meets.mono (fun s e hf x hx => ?_) h)
  exact filterVerdict_favoured (hf x hx)

/-- The first FULLTIME frame waits for its diagnostic while two frames of the next cycle pass. -/
def lateRelease : List Event :=
  [.enqueue (quoted "FULLTIME" 1), .enqueue (quoted "1'" 0), .enqueue (quoted "2'" 0), .enqueue (quoted "FULLTIME" 1),
    .get 0 60, .get 1 60, .send 1, .resume 1 61, .send 0, .resume 0 62, .get 1 120, .send 1]

/-- Under the default filter, two commands for one market between two FULLTIME frames. -/
theorem a_late_release_trades_twice :
    let s := run Settings.default (filterVerdict FilterSettings.default) (start 4) lateRelease
    s.history.map Frame.closes = [some "m1", none, none, some "m1"] ∧ ¬ OnePerCycle s := by
  simp only [run_favoured lateRelease (by decide +kernel)]
  refine ⟨by decide +kernel, fun h => ?_⟩
  have hopen : ∀ r, 0 < r → r < 3 →
      (run Settings.default betHome (start 4) lateRelease).history[r]?.bind Frame.closes ≠ some "m1" := by
    intro r h1 h2
    have : r = 1 ∨ r = 2 := by omega
    rcases this with rfl | rfl <;> decide +kernel
  have hone := h "m1" "1X2" 0 3 hopen
  revert hone
  decide +kernel

/-- A command waits for its publication while the match is released. -/
def lateCommand : List Event :=
  [.enqueue (quoted "31'" 0), .enqueue (quoted "FULLTIME" 0), .get 0 60, .get 1 60, .send 1, .resume 1 61, .send 0]

theorem a_command_after_the_release :
    ¬ NoneLate (run Settings.default (filterVerdict FilterSettings.default) (start 4) lateCommand) := by
  rw [run_favoured lateCommand (by decide +kernel)]
  decide +kernel

end CasuyaLive.Analytics
