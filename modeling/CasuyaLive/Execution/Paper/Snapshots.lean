/-
  CasuyaLive.Execution.Paper.Snapshots — the snapshots the paper broker publishes, over every
  interleaving of its run loop and its sweep (execution-engine-go,
  internal/broker/interfaces.go: `PaperRunLoop`, `sweepStale`, `persistSession`,
  `publishPaperSnapshot`).

  A batch takes its number, adds itself to the session and reads the session again in three
  separate sections under the mutex. `numbered` lists the batches by number. `Consistent`: a
  snapshot with number c shows the totals of the batches 1 to c, no fewer and no more.

  `snapshots_agree`: they do, and `updated_cycle` never goes back, in every run where a batch
  adds itself to the session only after every batch with a lower number has taken its
  snapshot (`InTurn`). `InOrder` is the invariant: the session holds the first k batches,
  and the numbers above k wait for it. Without the condition a sweep shows its batch without
  the one numbered before it (`a_sweep_overtakes_the_loop`).
-/

import CasuyaLive.Execution.Paper.Once

namespace CasuyaLive.Execution.Paper

open CasuyaLive.Lib

def works (s : Broker) : List Work := s.loop.toList ++ (sweepWork s.sweep).toList

/-- The batch an action moves. -/
def turn (s : Broker) : Action → Option Work
  | .loop _ => s.loop
  | .sweep _ => sweepWork s.sweep
  | .execute _ _ => none
  | .putMeta _ _ => none
  | .frame _ => none

/-- The batch of the other goroutine. -/
def other (s : Broker) : Action → Option Work
  | .loop _ => sweepWork s.sweep
  | .sweep _ => s.loop
  | .execute _ _ => none
  | .putMeta _ _ => none
  | .frame _ => none

namespace Stage

def isCount : Stage → Bool
  | .count => true
  | .session => false
  | .tx => false
  | .adds _ => false
  | .snapshot => false
  | .publish _ => false
  | .hdel => false

def isSession : Stage → Bool
  | .session => true
  | .count => false
  | .tx => false
  | .adds _ => false
  | .snapshot => false
  | .publish _ => false
  | .hdel => false

/-- Numbered, and the session not read yet. -/
def unseen : Stage → Bool
  | .session => true
  | .tx => true
  | .adds _ => true
  | .snapshot => true
  | .count => false
  | .publish _ => false
  | .hdel => false

end Stage

/-- The batch that takes its number next, if this one does. -/
def numbers (w : Work) : List Batch := if w.stage.isCount then [w.batch] else []

/-- The batch that an action numbers. -/
def numbering (s : Broker) (a : Action) : List Batch := (turn s a).toList.flatMap numbers

/-- The batches numbered in a run; the first one has the number 1. -/
def numbered (s : Broker) (as : List Action) : List Batch := outputs (fun s a => (step s a, numbering s a)) s as

/-- The totals of the batches 1 to c. -/
def sessionOf (bs : List Batch) (c : Nat) : Totals := ((bs.take c).map Batch.totals).sum

def Consistent (bs : List Batch) (s : Broker) : Prop :=
  ∀ snap ∈ s.published, snap.cycle ≤ bs.length ∧ snap.session = sessionOf bs snap.cycle

instance (bs : List Batch) (s : Broker) : Decidable (Consistent bs s) :=
  inferInstanceAs (Decidable (∀ snap ∈ s.published, _ ∧ _))

/-- In every state of the run each published snapshot shows the batches up to its number,
    and no step takes `updated_cycle` back. -/
structure SnapshotsAgree (s : Broker) (as : List Action) : Prop where
  session : ∀ pre, pre <+: as → Consistent (numbered s pre) (run s pre)
  updated : ∀ pre a, pre ++ [a] <+: as → (run s pre).updatedCycle ≤ (run s (pre ++ [a])).updatedCycle

/-- A batch adds itself to the session when every batch with a lower number has taken its
    snapshot. -/
def InTurn (s : Broker) (a : Action) : Prop :=
  ∀ w ∈ turn s a, w.stage.isSession = true → ∀ v ∈ other s a, v.stage.unseen = true → w.cycle ≤ v.cycle

instance (s : Broker) (a : Action) : Decidable (InTurn s a) :=
  inferInstanceAs (Decidable (∀ w ∈ turn s a, _ → ∀ v ∈ other s a, _ → _))

/-! ## The invariant -/

/-- Where a batch stands when the session holds the first `k`. -/
def Place (bs : List Batch) (k : Nat) (w : Work) : Prop :=
  match w.stage with
  | .count => True
  | .session => k < w.cycle ∧ bs[w.cycle - 1]? = some w.batch
  | .tx => w.cycle = k
  | .adds _ => w.cycle = k
  | .snapshot => w.cycle = k
  | .publish snap => snap.cycle ≤ bs.length ∧ snap.session = sessionOf bs snap.cycle
  | .hdel => True

/-- The session holds the first `k` batches, and each later one waits to be added. -/
structure InOrder (bs : List Batch) (s : Broker) (ws : List Work) (k : Nat) : Prop where
  cycle : s.cycle = bs.length
  bound : k ≤ bs.length
  session : s.session = sessionOf bs k
  updated : s.updatedCycle ≤ k
  published : Consistent bs s
  place : ∀ w ∈ ws, Place bs k w
  waiting : ∀ c, k < c → c ≤ bs.length → ∃ w ∈ ws, w.stage.isSession = true ∧ w.cycle = c
  distinct : ws.Pairwise fun v w => v.stage.isSession = true → w.stage.isSession = true → v.cycle ≠ w.cycle

theorem sessionOf_append {bs : List Batch} {c : Nat} (h : c ≤ bs.length) (b : Batch) : sessionOf (bs ++ [b]) c = sessionOf bs c := by
  rw [sessionOf, List.take_append_of_le_length h, ← sessionOf]

theorem sessionOf_succ {bs : List Batch} {c : Nat} {b : Batch} (h : bs[c]? = some b) :
    sessionOf bs (c + 1) = sessionOf bs c + b.totals := by
  obtain ⟨hc, rfl⟩ := List.getElem?_eq_some_iff.mp h
  simp only [sessionOf, List.take_add_one, List.map_append, List.sum_append, h]
  simp

theorem place_bound {bs : List Batch} {k : Nat} {w : Work} (h : Place bs k w) (hs : w.stage.isSession = true) :
    k < w.cycle ∧ w.cycle ≤ bs.length ∧ bs[w.cycle - 1]? = some w.batch := by
  unfold Place at h
  cases hw : w.stage with
  | session =>
    rw [hw] at h
    obtain ⟨h1, h2⟩ := h
    have h3 := (List.getElem?_eq_some_iff.mp h2).1
    exact ⟨h1, by omega, h2⟩
  | _ =>
    rw [hw] at hs
    cases hs

/-- Another batch is numbered: the others stay where they are. -/
theorem place_append {bs : List Batch} {k : Nat} {w : Work} (h : Place bs k w) (b : Batch) : Place (bs ++ [b]) k w := by
  unfold Place at h ⊢
  split
  · trivial
  · rename_i hw
    rw [hw] at h
    obtain ⟨h1, h2⟩ := h
    have h3 := (List.getElem?_eq_some_iff.mp h2).1
    exact ⟨h1, by rw [List.getElem?_append_left h3]; exact h2⟩
  · rename_i hw; rw [hw] at h; exact h
  · rename_i hw; rw [hw] at h; exact h
  · rename_i hw; rw [hw] at h; exact h
  · rename_i hw
    rw [hw] at h
    obtain ⟨h1, h2⟩ := h
    refine ⟨?_, by rw [sessionOf_append h1]; exact h2⟩
    rw [List.length_append]
    omega
  · trivial

theorem consistent_append {bs : List Batch} {s : Broker} (h : Consistent bs s) (b : Batch) : Consistent (bs ++ [b]) s := by
  intro snap hsnap
  obtain ⟨h1, h2⟩ := h snap hsnap
  refine ⟨?_, by rw [sessionOf_append h1]; exact h2⟩
  rw [List.length_append]
  omega

theorem InOrder.perm {bs : List Batch} {s : Broker} {ws vs : List Work} {k : Nat} (h : InOrder bs s ws k) (hp : ws.Perm vs) :
    InOrder bs s vs k := by
  refine ⟨h.cycle, h.bound, h.session, h.updated, h.published, fun w hw => h.place w (hp.mem_iff.mpr hw), fun c h1 h2 => ?_, ?_⟩
  · obtain ⟨w, hw, hc⟩ := h.waiting c h1 h2
    exact ⟨w, hp.mem_iff.mp hw, hc⟩
  · refine (hp.pairwise_iff ?_).mp h.distinct
    intro v w hvw h1 h2
    exact (hvw h2 h1).symm

/-- A batch that does not wait for the session may go. -/
theorem InOrder.tail {bs : List Batch} {s : Broker} {w : Work} {vs : List Work} {k : Nat} (h : InOrder bs s (w :: vs) k)
    (hw : w.stage.isSession = false) : InOrder bs s vs k := by
  refine ⟨h.cycle, h.bound, h.session, h.updated, h.published, fun v hv => h.place v (List.mem_cons_of_mem _ hv),
    fun c h1 h2 => ?_, (List.pairwise_cons.mp h.distinct).2⟩
  obtain ⟨v, hv, hs, hc⟩ := h.waiting c h1 h2
  rcases List.mem_cons.mp hv with rfl | hv
  · rw [hw] at hs
    cases hs
  · exact ⟨v, hv, hs, hc⟩

/-- One that is in its place may come. -/
theorem InOrder.cons {bs : List Batch} {s : Broker} {w : Work} {vs : List Work} {k : Nat} (h : InOrder bs s vs k)
    (hw : w.stage.isSession = false) (hp : Place bs k w) : InOrder bs s (w :: vs) k := by
  refine ⟨h.cycle, h.bound, h.session, h.updated, h.published, fun v hv => ?_, fun c h1 h2 => ?_, ?_⟩
  · rcases List.mem_cons.mp hv with rfl | hv
    · exact hp
    · exact h.place v hv
  · obtain ⟨v, hv, hc⟩ := h.waiting c h1 h2
    exact ⟨v, List.mem_cons_of_mem _ hv, hc⟩
  · refine List.pairwise_cons.mpr ⟨fun v _ h1 => ?_, h.distinct⟩
    rw [hw] at h1
    cases h1

/-! ## A step of a batch -/

theorem count_inOrder {bs : List Batch} {s : Broker} {w : Work} {vs : List Work} {k : Nat} (h : InOrder bs s (w :: vs) k)
    (hw : w.stage.isSession = false) :
    InOrder (bs ++ [w.batch]) { s with cycle := s.cycle + 1 } ({ w with cycle := s.cycle + 1, stage := .session } :: vs) k := by
  have hvs := h.tail hw
  have hlen : (bs ++ [w.batch]).length = s.cycle + 1 := by rw [List.length_append, h.cycle, List.length_singleton]
  refine ⟨hlen.symm, by have := h.bound; rw [hlen, h.cycle]; omega, ?_, h.updated, ?_, fun v hv => ?_, fun c h1 h2 => ?_, ?_⟩
  · rw [sessionOf_append h.bound]
    exact h.session
  · exact consistent_append h.published w.batch
  · rcases List.mem_cons.mp hv with rfl | hv
    · refine ⟨?_, ?_⟩
      · have := h.bound
        show k < s.cycle + 1
        rw [h.cycle]
        omega
      · simp [h.cycle]
    · exact place_append (hvs.place v hv) w.batch
  · by_cases hc : c = s.cycle + 1
    · exact ⟨_, List.mem_cons_self, rfl, hc.symm⟩
    · have hle : c ≤ bs.length := by rw [← h.cycle]; omega
      obtain ⟨v, hv, hs⟩ := hvs.waiting c h1 hle
      exact ⟨v, List.mem_cons_of_mem _ hv, hs⟩
  · refine List.pairwise_cons.mpr ⟨fun v hv _ hs => ?_, hvs.distinct⟩
    have hb := (place_bound (hvs.place v hv) hs).2.1
    show s.cycle + 1 ≠ v.cycle
    rw [h.cycle]
    omega

/-- Batch `k + 1` joins the session: the batches behind it wait on, and of those ahead none
    has still to look. -/
theorem place_next {bs : List Batch} {k : Nat} {v : Work} (h : Place bs k v)
    (hturn : v.stage.unseen = true → k + 1 ≤ v.cycle) (hne : v.stage.isSession = true → v.cycle ≠ k + 1) :
    Place bs (k + 1) v := by
  have hahead : v.stage.unseen = true → v.cycle = k → False := by
    intro hu hk
    have := hturn hu
    omega
  unfold Place at h ⊢
  cases hs : v.stage with
  | count => trivial
  | session =>
    simp only [hs] at h hne ⊢
    have := hne rfl
    exact ⟨by omega, h.2⟩
  | tx =>
    simp only [hs] at h hahead
    exact (hahead rfl h).elim
  | adds rest =>
    simp only [hs] at h hahead
    exact (hahead rfl h).elim
  | snapshot =>
    simp only [hs] at h hahead
    exact (hahead rfl h).elim
  | publish snap =>
    simp only [hs] at h ⊢
    exact h
  | hdel => trivial

/-- The batch that joins the session is the next one by number. -/
theorem session_inOrder {bs : List Batch} {s : Broker} {w : Work} {vs : List Work} {k : Nat} (h : InOrder bs s (w :: vs) k)
    (hw : w.stage.isSession = true) (hturn : ∀ v ∈ vs, v.stage.unseen = true → w.cycle ≤ v.cycle) :
    InOrder bs { s with session := s.session + w.batch.totals } ({ w with stage := .tx } :: vs) (k + 1) := by
  obtain ⟨hlt, hle, hat⟩ := place_bound (h.place w List.mem_cons_self) hw
  have hsession : ∀ {v : Work}, v.stage.isSession = true → v.stage.unseen = true := by
    intro v hv
    cases hs : v.stage <;> simp [hs, Stage.isSession, Stage.unseen] at hv ⊢
  have hnext : w.cycle = k + 1 := by
    obtain ⟨v, hv, hs, hc⟩ := h.waiting (k + 1) (by omega) (by omega)
    rcases List.mem_cons.mp hv with rfl | hv
    · exact hc
    · have := hturn v hv (hsession hs)
      omega
  have hdistinct := List.pairwise_cons.mp h.distinct
  refine ⟨h.cycle, by omega, ?_, by have := h.updated; show s.updatedCycle ≤ k + 1; omega, h.published, fun v hv => ?_,
    fun c h1 h2 => ?_, ?_⟩
  · rw [hnext, Nat.add_sub_cancel] at hat
    show s.session + _ = _
    rw [sessionOf_succ hat, h.session]
  · rcases List.mem_cons.mp hv with rfl | hv
    · exact hnext
    · refine place_next (h.place v (List.mem_cons_of_mem _ hv)) ?_ ?_
      · rw [← hnext]
        exact hturn v hv
      · rw [← hnext]
        exact fun hs => (hdistinct.1 v hv hw hs).symm
  · obtain ⟨v, hv, hs, hc⟩ := h.waiting c (by omega) h2
    rcases List.mem_cons.mp hv with rfl | hv
    · omega
    · exact ⟨v, List.mem_cons_of_mem _ hv, hs, hc⟩
  · refine List.pairwise_cons.mpr ⟨fun v _ h1 => ?_, hdistinct.2⟩
    cases h1

/-- Nothing of the accumulators changes. -/
theorem InOrder.congr {bs : List Batch} {s t : Broker} {ws : List Work} {k : Nat} (h : InOrder bs s ws k)
    (hcycle : t.cycle = s.cycle) (hsession : t.session = s.session) (hupdated : t.updatedCycle = s.updatedCycle)
    (hpublished : t.published = s.published) : InOrder bs t ws k := by
  refine ⟨hcycle.trans h.cycle, h.bound, hsession.trans h.session, by rw [hupdated]; exact h.updated, ?_, h.place, h.waiting,
    h.distinct⟩
  intro snap hsnap
  rw [hpublished] at hsnap
  exact h.published snap hsnap

theorem advance_inOrder {bs : List Batch} {s : Broker} {w : Work} {vs : List Work} {k : Nat} (h : InOrder bs s (w :: vs) k)
    (now : Int) (hturn : w.stage.isSession = true → ∀ v ∈ vs, v.stage.unseen = true → w.cycle ≤ v.cycle) :
    (∃ k', InOrder (bs ++ numbers w) (advance now s w).1
      ((advance now s w).2.toList ++ vs) k') ∧ s.updatedCycle ≤ (advance now s w).1.updatedCycle := by
  have hplace := h.place w List.mem_cons_self
  obtain ⟨b, c, stage⟩ := w
  cases stage with
  | count => exact ⟨⟨k, count_inOrder h rfl⟩, Nat.le_refl _⟩
  | session =>
    refine ⟨⟨k + 1, ?_⟩, Nat.le_refl _⟩
    rw [show bs ++ numbers ⟨b, c, .session⟩ = bs from List.append_nil bs]
    exact session_inOrder h rfl (hturn rfl)
  | tx =>
    have hk : c = k := hplace
    have ht := h.tail rfl
    refine ⟨⟨k, ?_⟩, by rw [hk]; exact h.updated⟩
    rw [show bs ++ numbers ⟨b, c, .tx⟩ = bs from List.append_nil bs]
    refine InOrder.cons (w := ⟨b, c, .adds (b.entries now)⟩) ?_ rfl hk
    exact ⟨ht.cycle, ht.bound, ht.session, Nat.le_of_eq hk, ht.published, ht.place, ht.waiting, ht.distinct⟩
  | adds rest =>
    have hk : c = k := hplace
    have ht := h.tail rfl
    rw [show bs ++ numbers ⟨b, c, .adds rest⟩ = bs from List.append_nil bs]
    cases rest with
    | nil => exact ⟨⟨k, ht.cons (w := ⟨b, c, .snapshot⟩) rfl hk⟩, Nat.le_refl _⟩
    | cons e rest =>
      exact ⟨⟨k, InOrder.cons (w := ⟨b, c, .adds rest⟩) (ht.congr rfl rfl rfl rfl) rfl hk⟩, Nat.le_refl _⟩
  | snapshot =>
    have hk : c = k := hplace
    have ht := h.tail rfl
    rw [show bs ++ numbers ⟨b, c, .snapshot⟩ = bs from List.append_nil bs]
    refine ⟨⟨k, ht.cons (w := ⟨b, c, .publish ⟨c, b.matchID, b.home.toInt, b.away.toInt, b.settled, s.session⟩⟩) rfl ?_⟩, Nat.le_refl _⟩
    exact ⟨by have := h.bound; show c ≤ _; omega, by rw [hk]; exact h.session⟩
  | publish snap =>
    have hs : snap.cycle ≤ bs.length ∧ snap.session = sessionOf bs snap.cycle := hplace
    have ht := h.tail rfl
    rw [show bs ++ numbers ⟨b, c, .publish snap⟩ = bs from List.append_nil bs]
    refine ⟨⟨k, InOrder.cons (w := ⟨b, c, .hdel⟩) ?_ rfl trivial⟩, Nat.le_refl _⟩
    refine ⟨ht.cycle, ht.bound, ht.session, ht.updated, fun x hx => ?_, ht.place, ht.waiting, ht.distinct⟩
    rcases List.mem_append.mp hx with hx | hx
    · exact ht.published x hx
    · rw [List.mem_singleton.mp hx]
      exact hs
  | hdel =>
    have ht := h.tail rfl
    rw [show bs ++ numbers ⟨b, c, .hdel⟩ = bs from List.append_nil bs]
    exact ⟨⟨k, ht.congr rfl rfl rfl rfl⟩, Nat.le_refl _⟩

/-! ## A step and a run -/

theorem advance_works (now : Int) (s : Broker) (w : Work) :
    (advance now s w).1.loop = s.loop ∧ (advance now s w).1.sweep = s.sweep := by
  unfold advance
  cases w.stage with
  | adds rest => cases rest <;> exact ⟨rfl, rfl⟩
  | _ => exact ⟨rfl, rfl⟩

theorem loop_inOrder {bs : List Batch} {s : Broker} {k : Nat} (h : InOrder bs s (works s) k) (now : Int)
    (hturn : InTurn s (.loop now)) :
    (∃ k', InOrder (bs ++ numbering s (.loop now)) (step s (.loop now)) (works (step s (.loop now))) k') ∧
      s.updatedCycle ≤ (step s (.loop now)).updatedCycle := by
  cases hl : s.loop with
  | none =>
    simp only [step, hl, numbering, turn, Option.toList_none, List.flatMap_nil, List.append_nil]
    exact ⟨⟨k, h⟩, Nat.le_refl _⟩
  | some w =>
    have hw : works s = w :: (sweepWork s.sweep).toList := by simp [works, hl]
    rw [hw] at h
    obtain ⟨⟨k', hk⟩, hle⟩ := advance_inOrder h now fun hs v hv => by
      refine hturn w (by simp [turn, hl]) hs v ?_
      rwa [Option.mem_toList] at hv
    obtain ⟨-, hsweep⟩ := advance_works now s w
    simp only [step, hl, numbering, turn, Option.toList_some, List.flatMap_cons, List.flatMap_nil, List.append_nil]
    refine ⟨⟨k', ?_⟩, hle⟩
    simp only [works, hsweep]
    exact hk.congr rfl rfl rfl rfl

/-- A sweep with no batch in hand numbers nothing. -/
theorem sweep_idle {bs : List Batch} {s : Broker} {k : Nat} (h : InOrder bs s (works s) k) (now : Int) {sw : Sweep}
    (h0 : sweepWork s.sweep = none) (h1 : sweepWork sw = none) :
    InOrder (bs ++ numbering s (.sweep now)) { s with sweep := sw } (works { s with sweep := sw }) k := by
  have hworks : works { s with sweep := sw } = works s := by simp only [works, h0, h1]
  rw [hworks]
  simp only [numbering, turn, h0, Option.toList_none, List.flatMap_nil, List.append_nil]
  exact h.congr rfl rfl rfl rfl

/-- One with a batch advances it. -/
theorem sweep_busy {bs : List Batch} {s : Broker} {k : Nat} {w : Work} (h : InOrder bs s (works s) k) (now : Int)
    (hturn : InTurn s (.sweep now)) (hw : sweepWork s.sweep = some w) :
    (∃ k', InOrder (bs ++ numbering s (.sweep now)) (advance now s w).1 (s.loop.toList ++ (advance now s w).2.toList) k') ∧
      s.updatedCycle ≤ (advance now s w).1.updatedCycle := by
  have hperm : (works s).Perm (w :: s.loop.toList) := by
    simp only [works, hw, Option.toList_some]
    exact List.perm_append_singleton _ _
  obtain ⟨⟨k', hk⟩, hle⟩ := advance_inOrder (h.perm hperm) now fun hs' v hv => by
    refine hturn w (by simp [turn, hw]) hs' v ?_
    rwa [Option.mem_toList] at hv
  simp only [numbering, turn, hw, Option.toList_some, List.flatMap_cons, List.flatMap_nil, List.append_nil]
  exact ⟨⟨k', hk.perm List.perm_append_comm⟩, hle⟩

theorem sweep_inOrder {bs : List Batch} {s : Broker} {k : Nat} (h : InOrder bs s (works s) k) (now : Int)
    (hturn : InTurn s (.sweep now)) :
    (∃ k', InOrder (bs ++ numbering s (.sweep now)) (stepSweep now s) (works (stepSweep now s)) k') ∧
      s.updatedCycle ≤ (stepSweep now s).updatedCycle := by
  rcases stepSweep_cases now s with ⟨sw, he, h0, h1, -⟩ | ⟨x, rest, hs, he⟩ | ⟨rest, w, sw, hs, he, hsw, -⟩
  · rw [he]
    exact ⟨⟨k, sweep_idle h now h0 h1⟩, Nat.le_refl _⟩
  · have hno : sweepWork s.sweep = none := by rw [hs]; rfl
    rw [he]
    refine ⟨⟨k, ?_⟩, Nat.le_refl _⟩
    simp only [numbering, turn, hno, Option.toList_none, List.flatMap_nil, List.append_nil]
    have hnew : InOrder bs s (started (sweepBatch x (metaOf s x.2.matchID)) :: works s) k := h.cons rfl trivial
    refine InOrder.congr (hnew.perm ?_) rfl rfl rfl rfl
    simp only [works, hs, sweepWork, Option.toList_none, Option.toList_some, List.append_nil]
    exact (List.perm_append_singleton _ _).symm
  · have hw : sweepWork s.sweep = some w := by rw [hs]; rfl
    obtain ⟨⟨k', hk⟩, hle⟩ := sweep_busy h now hturn hw
    obtain ⟨hloop, -⟩ := advance_works now s w
    rw [he]
    refine ⟨⟨k', ?_⟩, hle⟩
    rw [works, hsw, hloop]
    exact hk.congr rfl rfl rfl rfl

theorem step_inOrder {bs : List Batch} {s : Broker} {k : Nat} (h : InOrder bs s (works s) k) (a : Action) (hturn : InTurn s a) :
    (∃ k', InOrder (bs ++ numbering s a) (step s a) (works (step s a)) k') ∧ s.updatedCycle ≤ (step s a).updatedCycle := by
  cases a with
  | execute now p =>
    rw [show bs ++ numbering s (.execute now p) = bs from List.append_nil bs]
    simp only [step]
    split
    · exact ⟨⟨k, h⟩, Nat.le_refl _⟩
    · exact ⟨⟨k, h.congr rfl rfl rfl rfl⟩, Nat.le_refl _⟩
  | putMeta matchID m =>
    rw [show bs ++ numbering s (.putMeta matchID m) = bs from List.append_nil bs]
    exact ⟨⟨k, h.congr rfl rfl rfl rfl⟩, Nat.le_refl _⟩
  | frame f =>
    rw [show bs ++ numbering s (.frame f) = bs from List.append_nil bs]
    simp only [step]
    cases hl : s.loop with
    | some w => exact ⟨⟨k, h⟩, Nat.le_refl _⟩
    | none =>
      cases hb : feedBatch s.pending f with
      | none =>
        have hsame : works { s with loop := Option.map started none } = works s := by simp [works, hl]
        exact ⟨⟨k, by rw [hsame]; exact h.congr rfl rfl rfl rfl⟩, Nat.le_refl _⟩
      | some b =>
        have hnew : InOrder bs s (started b :: works s) k := h.cons rfl trivial
        have hw : works { s with loop := Option.map started (some b) } = started b :: works s := by simp [works, hl]
        exact ⟨⟨k, by rw [hw]; exact hnew.congr rfl rfl rfl rfl⟩, Nat.le_refl _⟩
  | loop now => exact loop_inOrder h now hturn
  | sweep now => exact sweep_inOrder h now hturn

theorem run_concat (s : Broker) (as : List Action) (a : Action) : run s (as ++ [a]) = step (run s as) a := by
  simp only [run, List.foldl_append, List.foldl_cons, List.foldl_nil]

theorem numbered_concat (s : Broker) (as : List Action) (a : Action) :
    numbered s (as ++ [a]) = numbered s as ++ numbering (run s as) a := by
  unfold numbered
  rw [outputs_append]
  simp only [outputs_cons, outputs_nil, List.append_nil]
  rfl

theorem start_inOrder (pending : Orders) (metas : Table String MatchMeta) (hash : Totals) :
    InOrder [] (start pending metas hash) (works (start pending metas hash)) 0 := by
  refine ⟨rfl, Nat.le_refl _, rfl, Nat.le_refl _, ?_, ?_, fun c h1 h2 => ?_, List.Pairwise.nil⟩
  · intro snap h
    cases h
  · intro w h
    cases h
  · simp only [List.length_nil] at h2
    omega

theorem run_inOrder (pending : Orders) (metas : Table String MatchMeta) (hash : Totals) (as : List Action)
    (h : Meets step InTurn (start pending metas hash) as) :
    ∃ k, InOrder (numbered (start pending metas hash) as) (run (start pending metas hash) as)
      (works (run (start pending metas hash) as)) k := by
  induction as using List.reverseRecOn with
  | nil => exact ⟨0, start_inOrder pending metas hash⟩
  | append_singleton as a ih =>
    obtain ⟨hpre, hlast⟩ := meets_append.mp h
    obtain ⟨k, hk⟩ := ih hpre
    rw [numbered_concat, run_concat]
    exact (step_inOrder hk a hlast.1).1

/-- In every run whose batches join the session in turn, each snapshot shows the batches up
    to its number, and `updated_cycle` never goes back. -/
theorem snapshots_agree (pending : Orders) (metas : Table String MatchMeta) (hash : Totals) (as : List Action)
    (h : Meets step InTurn (start pending metas hash) as) : SnapshotsAgree (start pending metas hash) as := by
  constructor
  · intro pre hpre
    obtain ⟨post, rfl⟩ := hpre
    obtain ⟨k, hk⟩ := run_inOrder pending metas hash pre (meets_append.mp h).1
    exact hk.published
  · intro pre a hpre
    obtain ⟨post, rfl⟩ := hpre
    obtain ⟨hpre, hlast⟩ := meets_append.mp (meets_append.mp h).1
    obtain ⟨k, hk⟩ := run_inOrder pending metas hash pre hpre
    rw [run_concat]
    exact (step_inOrder hk a hlast.1).2

/-- Only m2 is long over. -/
def oneLongOver : Table String MatchMeta := Table.empty.set "m2" ⟨1, 0, "70'", 0, 0⟩

/-- The sweep settles m2 while the run loop waits with its batch of m1. -/
theorem a_sweep_after_the_loop_agrees : SnapshotsAgree (start twoOrders oneLongOver 0)
    (.frame ⟨"FULLTIME", "m1", some (1, 0)⟩ :: (List.replicate 6 (.loop fourHours) ++ List.replicate 14 (.sweep fourHours) ++
      List.replicate 2 (.loop fourHours))) :=
  snapshots_agree twoOrders oneLongOver 0 _ (by decide +kernel)

/-- The run loop numbers its batch, then the sweep settles a whole batch before it. -/
def sweepOvertakes : List Action :=
  .frame ⟨"FULLTIME", "m1", some (1, 0)⟩ :: .loop fourHours :: (List.replicate 14 (.sweep fourHours) ++
    List.replicate 7 (.loop fourHours))

theorem a_sweep_overtakes_the_loop : ¬ SnapshotsAgree (start twoOrders oneLongOver 0) sweepOvertakes :=
  fun h => absurd (h.session sweepOvertakes (List.prefix_refl _)) (by decide +kernel)

end CasuyaLive.Execution.Paper
