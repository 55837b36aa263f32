/-
  CasuyaLive.Execution.Live.Once — every confirmed order counts once.

  The loop grades the orders of the frame it was handed; `positions` is not asked, only
  cleaned afterwards. So a frame decides what counts, and `counts_once_iff` says for which
  schedules that comes to one time an order: the frames taken name orders that the
  schedule confirms, each once over the whole run, and no order is recorded after its
  settlement is done with.

  As built nothing checks that: `a_frame_delivered_twice_counts_twice` and
  `a_late_fill_stays`.
-/

import CasuyaLive.Execution.Live.Broker

namespace CasuyaLive.Execution.Live

open CasuyaLive.Lib

def ids (settled : List SettledOrder) : List String := settled.map (·.orderID)

theorem ids_settledOf (st : Settlement) : ids (settledOf st) = st.orders.map (·.orderID) :=
  settleOrders_ids _ _ _ _ _

theorem ids_append (a b : List SettledOrder) : ids (a ++ b) = ids a ++ ids b := List.map_append

/-- The orders whose `recordFill` runs in the schedule. -/
def fillsOf (as : List Action) : List String :=
  as.filterMap fun
    | .fill f => some f.orderID
    | .frame _ => none
    | .settle _ => none

/-! ## What the hash is still to receive -/

def owed : Phase → List SettledOrder
  | .idle => []
  | .publish snap => snap.settled
  | .persist snap => snap.settled
  | .forget _ => []

/-- What the hash received, and is about to, the session has received. -/
def Behind (s : Broker) : Prop := (s.credited ++ owed s.loop).Sublist s.graded

theorem persistSession_behind {s : Broker} {snap : PnlSnapshot} (ok : Bool)
    (h : (s.credited ++ snap.settled).Sublist s.graded) :
    (persistSession s snap ok).credited.Sublist (persistSession s snap ok).graded := by
  unfold persistSession
  split
  · exact (List.sublist_append_left _ _).trans h
  · exact h

theorem step_behind (s : Broker) (a : Action) (h : Behind s) : Behind (step s a) := by
  unfold Behind at h
  cases a with
  | fill f => exact h
  | frame st =>
    simp only [step]
    split
    · rename_i hl
      rw [hl] at h
      simp only [owed, List.append_nil] at h
      exact h.append (List.Sublist.refl (settledOf st))
    · exact h
    · exact h
    · exact h
  | settle ok =>
    simp only [step]
    split
    · exact h
    · rename_i hl
      rw [hl] at h
      exact h
    · rename_i hl
      rw [hl] at h
      show (_ ++ []).Sublist _
      rw [List.append_nil]
      exact persistSession_behind ok h
    · rename_i hl
      rw [hl] at h
      exact h

/-! ## One state -/

structure OnceIn (fills : List String) (s : Broker) : Prop where
  graded : (ids s.graded).Nodup
  confirmed : ∀ id ∈ ids s.graded, id ∈ fills
  gone : ∀ id ∈ s.forgotten, id ∈ s.recorded → s.positions.fills.get? id = none

/-- A fill is not yet settled; the frame that the loop takes names confirmed orders, none
    of them graded before. -/
def InTurn (fills : List String) (s : Broker) : Action → Prop
  | .fill f => f.orderID ∉ s.forgotten
  | .frame st => s.loop = .idle → (ids s.graded ++ st.orders.map (·.orderID)).Nodup ∧
      ∀ o ∈ st.orders, o.orderID ∈ fills
  | .settle _ => True

theorem Positions.record_present (p : Positions) (f : Fill) : (p.record f).fills.get? f.orderID ≠ none := by
  unfold Positions.record
  split
  · simp
  · assumption

theorem fill_once {fills : List String} {s : Broker} (h : OnceIn fills s) (f : Fill) :
    OnceIn fills (step s (.fill f)) ↔ f.orderID ∉ s.forgotten := by
  constructor
  · intro h' hf
    exact s.positions.record_present f (h'.gone f.orderID hf (List.mem_append_right _ List.mem_cons_self))
  · intro hf
    refine ⟨h.graded, h.confirmed, ?_⟩
    intro id hid hr
    have hne : id ≠ f.orderID := fun he => hf (he ▸ hid)
    apply Positions.record_absent _ hne
    apply h.gone id hid
    rcases List.mem_append.mp hr with hr | hr
    · exact hr
    · exact absurd (List.mem_singleton.mp hr) hne

theorem grade_once {fills : List String} {s : Broker} (h : OnceIn fills s) (st : Settlement) :
    OnceIn fills (grade s st) ↔
      (ids s.graded ++ st.orders.map (·.orderID)).Nodup ∧ ∀ o ∈ st.orders, o.orderID ∈ fills := by
  have hids : ids (grade s st).graded = ids s.graded ++ st.orders.map (·.orderID) := by
    show ids (s.graded ++ settledOf st) = _
    rw [ids_append, ids_settledOf]
  constructor
  · intro h'
    refine ⟨hids ▸ h'.graded, ?_⟩
    intro o ho
    apply h'.confirmed
    rw [hids]
    exact List.mem_append_right _ (List.mem_map_of_mem ho)
  · intro hst
    refine ⟨hids ▸ hst.1, ?_, h.gone⟩
    intro id hid
    rw [hids] at hid
    rcases List.mem_append.mp hid with hid | hid
    · exact h.confirmed id hid
    · obtain ⟨o, ho, rfl⟩ := List.mem_map.mp hid
      exact hst.2 o ho

theorem settle_once {fills : List String} {s : Broker} (h : OnceIn fills s) (ok : Bool) :
    OnceIn fills (step s (.settle ok)) := by
  simp only [step]
  split
  · exact h
  · exact ⟨h.graded, h.confirmed, h.gone⟩
  · unfold persistSession
    split <;> exact ⟨h.graded, h.confirmed, h.gone⟩
  · refine ⟨h.graded, h.confirmed, ?_⟩
    intro id hid hr
    apply Positions.forget_absent
    rcases List.mem_append.mp hid with hid | hid
    · exact Or.inl (h.gone id hid hr)
    · exact Or.inr hid

theorem step_once {fills : List String} {s : Broker} (h : OnceIn fills s) (a : Action) :
    OnceIn fills (step s a) ↔ InTurn fills s a := by
  cases a with
  | fill f => exact fill_once h f
  | frame st =>
    simp only [step, InTurn]
    split
    · rename_i hl
      rw [grade_once h, hl]
      simp
    all_goals
      rename_i hl
      simp [hl, h]
  | settle ok => simp [settle_once h ok, InTurn]

/-! ## The run -/

/-- What counts, in the session and in the hash, in every state of the run. -/
structure CountsOnce (hash : Totals) (as : List Action) (s : Broker) : Prop where
  accounts : Accounts hash s
  session : (ids s.graded).Nodup
  hash : (ids s.credited).Nodup
  confirmed : ∀ id ∈ ids s.graded ++ ids s.credited, id ∈ fillsOf as
  gone : ∀ id ∈ s.forgotten, id ∈ s.recorded → s.positions.fills.get? id = none

theorem countsOnce_of {hash : Totals} {as : List Action} {s : Broker} (ha : Accounts hash s) (hb : Behind s)
    (h : OnceIn (fillsOf as) s) : CountsOnce hash as s := by
  have hsub : (ids s.credited).Sublist (ids s.graded) := ((List.sublist_append_left _ _).trans hb).map _
  refine ⟨ha, h.graded, h.graded.sublist hsub, ?_, h.gone⟩
  intro id hid
  rcases List.mem_append.mp hid with hid | hid
  · exact h.confirmed id hid
  · exact h.confirmed id (hsub.subset hid)

theorem CountsOnce.once {hash : Totals} {as : List Action} {s : Broker} (h : CountsOnce hash as s) :
    OnceIn (fillsOf as) s :=
  ⟨h.session, fun id hid => h.confirmed id (List.mem_append_left _ hid), h.gone⟩

/-- Every confirmed order counts at most once and no other order does, and what is settled
    is not in `positions`, in every state of the run, exactly if all its steps are in turn. -/
theorem counts_once_iff (hash : Totals) (as : List Action) :
    (∀ pre, pre <+: as → CountsOnce hash as (run (start hash) pre)) ↔
      Meets step (InTurn (fillsOf as)) (start hash) as := by
  have hstart : OnceIn (fillsOf as) (start hash) := ⟨List.nodup_nil, nofun, nofun⟩
  rw [← always_iff step (InTurn (fillsOf as)) (fun _ => True) (OnceIn (fillsOf as)) (fun _ _ _ => trivial)
    (fun s a _ h => step_once h a) as trivial hstart]
  constructor
  · intro h pre hpre
    exact (h pre hpre).once
  · intro h pre hpre
    have hb : Behind (run (start hash) pre) :=
      fold_inv Behind step_behind pre (List.Sublist.refl [])
    exact countsOnce_of (accounts hash pre) hb (h pre hpre)

/-! ## As built -/

def homeFill : Fill := ⟨"M1", "1X2", "home", 3, 10, "m1", 0⟩
def homeWin : Settlement := ⟨1, "m1", ⟨1, 0⟩, [homeFill.order], "redis", true⟩

/-- The bus delivers one frame twice: one bet of 10 at 3.0 shows as two won, +40. -/
theorem a_frame_delivered_twice_counts_twice :
    let as := [.fill homeFill, .frame homeWin, .settle true, .settle true, .settle true,
      .frame homeWin, .settle true, .settle true]
    (run (start 0) as).session = ⟨40, 2, 0, 0⟩ ∧ (run (start 0) as).hash = ⟨40, 2, 0, 0⟩ ∧
      ¬ ∀ pre, pre <+: as → CountsOnce 0 as (run (start 0) pre) := by
  refine ⟨by decide +kernel, by decide +kernel, ?_⟩
  intro h
  have hn := (h _ (List.prefix_refl _)).session
  revert hn
  decide +kernel

/-- The settlement outruns the confirmation: the order is graded and never leaves. -/
theorem a_late_fill_stays :
    let s := run (start 0) [.frame homeWin, .settle true, .settle true, .settle true, .fill homeFill]
    s.session = ⟨20, 1, 0, 0⟩ ∧ s.forgotten = ["M1"] ∧ s.positions.fills.get? "M1" = some homeFill := by
  decide +kernel

end CasuyaLive.Execution.Live
