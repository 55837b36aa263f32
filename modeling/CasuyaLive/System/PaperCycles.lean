/-
  CasuyaLive.System.PaperCycles — the score a paper order is graded with, over the analytics
  engine (analytics-engine-py, src/main.py: `run`, `_worker`) and the paper executor's two
  loops (execution-engine-go, internal/broker/interfaces.go: `CommandRunLoop`,
  `ExecuteEnvelope`, `PaperRunLoop`).

  Every subscriber reads its channel in the order of publication, at its own pace: the
  engine and PaperRunLoop read matches:live, CommandRunLoop reads execution:commands. A
  command reaches the executor with the fields that were signed. The HSET of an order and
  the HGETALL of a FULLTIME frame may fail; PaperRunLoop's later commands succeed.

  Not in the source: `accepted`, where on matches:live the engine's frames stand; the place
  of the frame behind each command and each pending order (`triggers`); and `graded`, the
  orders PaperRunLoop graded, with the places of both frames.

  `graded_later`: in a run that executes no command while PaperRunLoop has still to read a
  FULLTIME frame of the match from before the command's own frame, every order is graded by
  a later frame. An order carries no cycle, so otherwise the frame of the cycle before
  grades it (`the_last_cycle_grades_the_next`).
-/

import CasuyaLive.Execution.Paper.Broker
import CasuyaLive.System.FinalFrames

namespace CasuyaLive.System

open CasuyaLive.Lib CasuyaLive.Analytics CasuyaLive.Execution

structure Command where
  trigger : Nat
  payload : Paper.Payload

structure Grading where
  orderID : String
  trigger : Nat
  final : Nat
  deriving DecidableEq

structure Desk where
  live : List Analytics.Frame
  engine : Analytics.Broker
  /-- How many frames the engine's listener has read. -/
  heard : Nat
  accepted : List Nat
  commands : List Command
  /-- How many commands CommandRunLoop has read. -/
  executed : Nat
  paper : Paper.Broker
  /-- How many frames PaperRunLoop has read. -/
  seen : Nat
  triggers : Table String Nat
  graded : List Grading

namespace Desk

/-- All have just subscribed; Redis may hold earlier orders. -/
def start (workers : Nat) (pending : Paper.Orders) (hash : Totals) : Desk :=
  { live := [], engine := Analytics.start workers, heard := 0, accepted := [], commands := [], executed := 0
    paper := Paper.start pending Table.empty hash, seen := 0, triggers := Table.empty, graded := [] }

inductive Event where
  | publish (f : Analytics.Frame)
  /-- The engine's listener reads its next frame. -/
  | listen
  | get (w : Nat) (now : ℚ)
  /-- A worker's publication; a command carries these odds and this amount. -/
  | send (w : Nat) (odds amount : ℚ)
  | resume (w : Nat) (now : ℚ)
  | fail (w : Nat)
  /-- CommandRunLoop executes its next command, and whether the HSET takes effect. -/
  | execute (now : Int) (ok : Bool)
  /-- PaperRunLoop, when it waits, reads its next frame, and whether its HGETALL is answered. -/
  | read (ok : Bool)
  /-- PaperRunLoop's next command for the batch it has graded. -/
  | settle (now : Int)

/-- The place of a frame of the engine's on matches:live. -/
def placeOf (s : Desk) (item : Item) : Nat := (s.accepted[item.index]?).getD 0

/-- The command a worker's publication puts on the channel. -/
def sent (s : Desk) (w : Nat) (odds amount : ℚ) : Option Command :=
  match s.engine.workers[w]? with
  | some (.commanding item m t _ false) => some ⟨s.placeOf item, ⟨m, t.marketID, t.side, odds, amount⟩⟩
  | some (.commanding _ _ _ _ true) => none
  | some (.diagnosing _ _ _ _) => none
  | some .idle => none
  | none => none

def execute (s : Desk) (now : Int) (c : Command) : Desk :=
  { s with
    paper := Paper.step s.paper (.execute now c.payload)
    triggers :=
      match Paper.placeOrder now c.payload with
      | some fill => s.triggers.set fill.orderID c.trigger
      | none => s.triggers }

/-- The orders that the frame at this place grades. -/
def gradings (s : Desk) (place : Nat) (f : Analytics.Frame) : List Grading :=
  match (paperFrame f).bind (Paper.feedBatch s.paper.pending) with
  | some b => b.ids.filterMap fun id => (s.triggers.get? id).map fun k => ⟨id, k, place⟩
  | none => []

def readFrame (s : Desk) (f : Analytics.Frame) : Desk :=
  { s with
    paper :=
      match paperFrame f with
      | some frame => Paper.step s.paper (.frame frame)
      | none => s.paper
    graded := s.graded ++ s.gradings s.seen f }

section

variable (cfg : Settings) (verdict : MomentumFrame → Except Raised (Option Trigger))

def turn (s : Desk) : Event → Desk
  | .publish f => { s with live := s.live ++ [f] }
  | .listen =>
    match s.live[s.heard]? with
    | none => s
    | some f =>
      { s with engine := Analytics.step cfg verdict s.engine (.enqueue f), heard := s.heard + 1
               accepted := if s.engine.queue.length < queueSize then s.accepted ++ [s.heard] else s.accepted }
  | .get w now => { s with engine := Analytics.step cfg verdict s.engine (.get w now) }
  | .send w odds amount =>
    { s with engine := Analytics.step cfg verdict s.engine (.send w), commands := s.commands ++ (s.sent w odds amount).toList }
  | .resume w now => { s with engine := Analytics.step cfg verdict s.engine (.resume w now) }
  | .fail w => { s with engine := Analytics.step cfg verdict s.engine (.fail w) }
  | .execute now ok =>
    match s.commands[s.executed]? with
    | none => s
    | some c => if ok then { s.execute now c with executed := s.executed + 1 } else { s with executed := s.executed + 1 }
  | .read ok =>
    match s.paper.loop, s.live[s.seen]? with
    | none, some f => if ok then { s.readFrame f with seen := s.seen + 1 } else { s with seen := s.seen + 1 }
    | none, none => s
    | some _, _ => s
  | .settle now => { s with paper := Paper.step s.paper (.loop now) }

def play (s : Desk) (es : List Event) : Desk := es.foldl (turn cfg verdict) s

end

/-- Every order is graded by a frame behind the one that triggered it. -/
def GradedLater (s : Desk) : Prop := ∀ g ∈ s.graded, g.trigger < g.final

instance (s : Desk) : Decidable (GradedLater s) := inferInstanceAs (Decidable (∀ _ ∈ _, _))

/-- PaperRunLoop grades the match's orders with this frame. -/
def settles (m : String) (f : Analytics.Frame) : Bool :=
  match paperFrame f with
  | none => false
  | some frame => frame.clock == "FULLTIME" && frame.score.isSome && (m == "" || m == frame.matchID)

/-- The frames up to this place that PaperRunLoop has still to read. -/
def unread (s : Desk) (place : Nat) : List Analytics.Frame := (s.live.take (place + 1)).drop s.seen

/-- When a command is executed, PaperRunLoop has read every FULLTIME frame of the match up to
    the command's own frame. -/
def Fresh (s : Desk) : Event → Prop
  | .execute now ok => ok = true → ∀ c ∈ s.commands[s.executed]?, (Paper.placeOrder now c.payload).isSome = true →
      ∀ f ∈ s.unread c.trigger, settles c.payload.matchID f = false
  | .publish _ => True
  | .listen => True
  | .get _ _ => True
  | .send _ _ _ => True
  | .resume _ _ => True
  | .fail _ => True
  | .read _ => True
  | .settle _ => True

instance (s : Desk) (e : Event) : Decidable (Fresh s e) := by
  cases e
  case execute now ok =>
    exact inferInstanceAs (Decidable (ok = true → ∀ c ∈ s.commands[s.executed]?, _ → ∀ f ∈ _, _ = _))
  all_goals exact isTrue trivial

/-! ## The invariant -/

/-- The engine has the frame from this place of matches:live. -/
def Traced (s : Desk) (item : Item) : Prop := ∃ k, s.accepted[item.index]? = some k ∧ s.live[k]? = some item.frame

/-- A pending order of a frame at `k`: only frames behind it are still to grade it. -/
def Awaits (s : Desk) (k : Nat) (m : String) : Prop :=
  k < s.live.length ∧ ∀ j f, s.seen ≤ j → s.live[j]? = some f → settles m f = true → k < j

structure Inv (s : Desk) : Prop where
  accepted : s.engine.history.length = s.accepted.length
  traced : Held (Traced s) s.engine
  commands : ∀ c ∈ s.commands, c.trigger < s.live.length
  pending : ∀ id fill k, s.paper.pending.table.get? id = some (some fill) → s.triggers.get? id = some k →
    Awaits s k fill.matchID
  graded : GradedLater s

theorem start_inv (workers : Nat) (pending : Paper.Orders) (hash : Totals) : Inv (start workers pending hash) := by
  refine ⟨rfl, ⟨fun q hq => absurd hq List.not_mem_nil, ?_⟩, fun c hc => absurd hc List.not_mem_nil, ?_,
    fun g hg => absurd hg List.not_mem_nil⟩
  · intro p hp item hitem
    have hidle : p = .idle := (List.mem_replicate.mp hp).2
    simp [hidle, itemOf] at hitem
  · intro id fill k _ hk
    cases hk

theorem lt_of_place {live : List Analytics.Frame} {k : Nat} {f : Analytics.Frame} (h : live[k]? = some f) : k < live.length :=
  (List.getElem?_eq_some_iff.mp h).1

theorem placeOf_lt {s : Desk} {item : Item} (h : Traced s item) : s.placeOf item < s.live.length := by
  obtain ⟨k, hk, hf⟩ := h
  rw [placeOf, hk]
  exact lt_of_place hf

theorem publish_inv {s : Desk} (h : Inv s) (f : Analytics.Frame) : Inv { s with live := s.live ++ [f] } := by
  have hlen : (s.live ++ [f]).length = s.live.length + 1 := by simp
  have hgrows : ∀ item, Traced s item → Traced { s with live := s.live ++ [f] } item := by
    intro item hitem
    obtain ⟨k, hk, hf⟩ := hitem
    exact ⟨k, hk, (List.getElem?_append_left (lt_of_place hf)).trans hf⟩
  refine ⟨h.accepted, ⟨fun q hq => hgrows q (h.traced.1 q hq), fun p hp i hi => hgrows i (h.traced.2 p hp i hi)⟩, ?_, ?_, h.graded⟩
  · intro c hc
    have := h.commands c hc
    show c.trigger < (s.live ++ [f]).length
    omega
  · intro id fill k hfill hk
    obtain ⟨hlt, hlater⟩ := h.pending id fill k hfill hk
    refine ⟨by show k < (s.live ++ [f]).length; omega, ?_⟩
    intro j g hj hg hsettles
    by_cases hold : j < s.live.length
    · exact hlater j g hj ((List.getElem?_append_left hold).symm.trans hg) hsettles
    · omega

section

variable {cfg : Settings} {verdict : MomentumFrame → Except Raised (Option Trigger)}

theorem listen_inv {s : Desk} (h : Inv s) : Inv (turn cfg verdict s .listen) := by
  simp only [turn]
  split
  · exact h
  · rename_i f hf
    by_cases hroom : s.engine.queue.length < queueSize
    · have hgrows : ∀ item, Traced s item → Traced { s with accepted := s.accepted ++ [s.heard] } item := by
        intro item hitem
        obtain ⟨k, hk, hg⟩ := hitem
        exact ⟨k, (List.getElem?_append_left (List.getElem?_eq_some_iff.mp hk).1).trans hk, hg⟩
      have hold : Held (Traced { s with accepted := s.accepted ++ [s.heard] }) s.engine :=
        ⟨fun q hq => hgrows q (h.traced.1 q hq), fun p hp i hi => hgrows i (h.traced.2 p hp i hi)⟩
      have hnew : Traced { s with accepted := s.accepted ++ [s.heard] } ⟨s.engine.history.length, f⟩ :=
        ⟨s.heard, by rw [h.accepted]; simp, hf⟩
      have hlen : (enqueue s.engine f).history.length = (s.accepted ++ [s.heard]).length := by
        simp [enqueue, hroom, h.accepted]
      rw [if_pos hroom]
      exact ⟨hlen, enqueue_held hold hnew, h.commands, h.pending, h.graded⟩
    · have hsame : enqueue s.engine f = { s.engine with dropped := s.engine.dropped + 1 } := by rw [enqueue, if_neg hroom]
      rw [if_neg hroom, Analytics.step, hsame]
      exact ⟨h.accepted, h.traced, h.commands, h.pending, h.graded⟩

theorem sent_lt {s : Desk} (h : Inv s) (w : Nat) (odds amount : ℚ) :
    ∀ c ∈ (s.sent w odds amount).toList, c.trigger < s.live.length := by
  intro c hc
  unfold sent at hc
  split at hc
  · rename_i item m t rest hw
    have htraced : Traced s item := held_worker h.traced hw rfl
    rw [List.mem_singleton.mp hc]
    exact placeOf_lt htraced
  all_goals cases hc

/-- A worker's turn, with the command it may have sent. -/
theorem worker_inv {s : Desk} (h : Inv s) {e : Analytics.Event} (he : ∀ f, e ≠ .enqueue f) {more : List Command}
    (hmore : ∀ c ∈ more, c.trigger < s.live.length) :
    Inv { s with engine := Analytics.step cfg verdict s.engine e, commands := s.commands ++ more } := by
  obtain ⟨hheld, hhistory⟩ := @step_held cfg verdict (Traced s) s.engine h.traced e he
  refine ⟨by rw [hhistory]; exact h.accepted, hheld, ?_, h.pending, h.graded⟩
  intro c hc
  rcases List.mem_append.mp hc with hc | hc
  · exact h.commands c hc
  · exact hmore c hc

theorem silent_inv {s : Desk} (h : Inv s) {e : Analytics.Event} (he : ∀ f, e ≠ .enqueue f) :
    Inv { s with engine := Analytics.step cfg verdict s.engine e } := by
  have hnext := @worker_inv cfg verdict s h e he [] (fun c hc => absurd hc List.not_mem_nil)
  rw [List.append_nil] at hnext
  exact hnext

theorem placeOrder_match {now : Int} {p : Paper.Payload} {fill : Fill} (h : Paper.placeOrder now p = some fill) :
    fill.matchID = p.matchID := by
  unfold Paper.placeOrder at h
  split at h
  · cases h
  · cases h
    rfl

/-- An order of a frame with no earlier FULLTIME frame of its match left to read. -/
theorem execute_inv {s : Desk} (h : Inv s) (now : Int) {c : Command} (hc : s.commands[s.executed]? = some c)
    (hfresh : (Paper.placeOrder now c.payload).isSome = true → ∀ f ∈ s.unread c.trigger, settles c.payload.matchID f = false) :
    Inv (s.execute now c) := by
  have hplace := h.commands c (List.mem_of_getElem? hc)
  refine ⟨h.accepted, h.traced, h.commands, ?_, h.graded⟩
  intro id fill k hfill hk
  cases ho : Paper.placeOrder now c.payload with
  | none =>
    simp only [execute, Paper.step, ho] at hfill hk
    exact h.pending id fill k hfill hk
  | some new =>
    simp only [execute, Paper.step, ho, Paper.Orders.insert, Table.get?_set] at hfill hk
    by_cases hid : id = new.orderID
    · rw [if_pos hid] at hfill hk
      cases hfill
      cases hk
      refine ⟨hplace, ?_⟩
      intro j f hj hf hsettles
      rw [placeOrder_match ho] at hsettles
      by_contra hle
      have hseen : s.seen ≤ j := hj
      have hunread : f ∈ s.unread c.trigger := by
        apply List.mem_of_getElem? (i := j - s.seen)
        rw [unread, List.getElem?_drop, List.getElem?_take_of_lt (by omega), ← hf]
        congr 1
        omega
      have hno := hfresh (by rw [ho]; rfl) f hunread
      rw [hsettles] at hno
      cases hno
    · rw [if_neg hid] at hfill hk
      exact h.pending id fill k hfill hk

/-- The orders that a frame grades awaited it. -/
theorem gradings_later {s : Desk} (h : Inv s) {f : Analytics.Frame} (hf : s.live[s.seen]? = some f) :
    ∀ g ∈ s.gradings s.seen f, g.trigger < g.final := by
  intro g hg
  unfold gradings at hg
  split at hg
  · rename_i b hb
    obtain ⟨frame, hframe, hfeed⟩ := Option.bind_eq_some_iff.mp hb
    obtain ⟨hclock, hscore, hpicked⟩ := Paper.feedBatch_picked hfeed
    obtain ⟨id, hid, hg⟩ := List.mem_filterMap.mp hg
    obtain ⟨k, hk, rfl⟩ := Option.map_eq_some_iff.mp hg
    obtain ⟨fill, hfill, hmatch⟩ := hpicked id hid
    have hsettles : settles fill.matchID f = true := by
      have hboth : (fill.matchID == "" || fill.matchID == frame.matchID) = true := hmatch
      simp only [settles, hframe, hclock, hscore, hboth]
      rfl
    exact (h.pending id fill k hfill hk).2 s.seen f (Nat.le_refl _) hf hsettles
  · cases hg

theorem read_inv {s : Desk} (h : Inv s) {f : Analytics.Frame} (hf : s.live[s.seen]? = some f) (ok : Bool) :
    Inv (if ok then { s.readFrame f with seen := s.seen + 1 } else { s with seen := s.seen + 1 }) := by
  have hpending : ∀ id fill k, s.paper.pending.table.get? id = some (some fill) → s.triggers.get? id = some k →
      k < s.live.length ∧ ∀ j g, s.seen + 1 ≤ j → s.live[j]? = some g → settles fill.matchID g = true → k < j := by
    intro id fill k hfill hk
    obtain ⟨hlt, hlater⟩ := h.pending id fill k hfill hk
    exact ⟨hlt, fun j g hj => hlater j g (by omega)⟩
  cases ok with
  | false => exact ⟨h.accepted, h.traced, h.commands, hpending, h.graded⟩
  | true =>
    have hsame : (s.readFrame f).paper.pending = s.paper.pending := by
      simp only [readFrame]
      split
      · simp only [Paper.step]
        split <;> rfl
      · rfl
    refine ⟨h.accepted, h.traced, h.commands, ?_, ?_⟩
    · intro id fill k hfill hk
      have hold : s.paper.pending.table.get? id = some (some fill) := by
        rw [← hsame]
        exact hfill
      exact hpending id fill k hold hk
    · intro g hg
      rcases List.mem_append.mp hg with hg | hg
      · exact h.graded g hg
      · exact gradings_later h hf g hg

theorem turn_inv {s : Desk} (h : Inv s) (e : Event) (hfresh : Fresh s e) : Inv (turn cfg verdict s e) := by
  cases e with
  | publish f => exact publish_inv h f
  | listen => exact listen_inv h
  | get w now => exact silent_inv h (by simp)
  | send w odds amount => exact worker_inv h (by simp) (sent_lt h w odds amount)
  | resume w now => exact silent_inv h (by simp)
  | fail w => exact silent_inv h (by simp)
  | execute now ok =>
    simp only [turn]
    split
    · exact h
    · rename_i c hc
      cases ok with
      | false => exact ⟨h.accepted, h.traced, h.commands, h.pending, h.graded⟩
      | true =>
        have hnext := execute_inv h now hc (hfresh rfl c hc)
        exact ⟨hnext.accepted, hnext.traced, hnext.commands, hnext.pending, hnext.graded⟩
  | read ok =>
    simp only [turn]
    split
    · rename_i f _ hf
      exact read_inv h hf ok
    · exact h
    · exact h
  | settle now =>
    refine ⟨h.accepted, h.traced, h.commands, ?_, h.graded⟩
    intro id fill k hfill hk
    exact h.pending id fill k (Paper.loop_pending hfill) hk

end

/-- In a run that executes no command ahead of an earlier FULLTIME frame of its match, no
    order is graded by one. -/
theorem graded_later (cfg : Settings) (verdict : MomentumFrame → Except Raised (Option Trigger)) (workers : Nat)
    (pending : Paper.Orders) (hash : Totals) (es : List Event)
    (h : Meets (turn cfg verdict) Fresh (start workers pending hash) es) :
    ∀ pre, pre <+: es → GradedLater (play cfg verdict (start workers pending hash) pre) := by
  intro pre hpre
  exact (run_always Inv (fun s e hi hf => turn_inv hi e hf) (start_inv workers pending hash) h pre hpre).graded

/-! ## Under the default filter -/

/-- The engine's part of a turn that may ask the filter. -/
def asks : Event → Option Analytics.Event
  | .get w now => some (.get w now)
  | .resume w now => some (.resume w now)
  | .publish _ => none
  | .listen => none
  | .send _ _ _ => none
  | .fail _ => none
  | .execute _ _ => none
  | .read _ => none
  | .settle _ => none

theorem turn_congr {cfg : Settings} {verdict other : MomentumFrame → Except Raised (Option Trigger)} (s : Desk) (e : Event)
    (h : ∀ a ∈ asks e, ∀ x ∈ evaluated cfg s.engine a, verdict (withFeatures cfg x) = other (withFeatures cfg x)) :
    turn cfg verdict s e = turn cfg other s e := by
  cases e with
  | get w now => simp only [turn, step_congr s.engine (.get w now) (h _ rfl)]
  | resume w now => simp only [turn, step_congr s.engine (.resume w now) (h _ rfl)]
  | _ => rfl

theorem play_favoured {s : Desk} (es : List Event)
    (h : Meets (turn Settings.default betHome)
      (fun s e => ∀ a ∈ asks e, ∀ x ∈ evaluated Settings.default s.engine a, Favoured (withFeatures Settings.default x)) s es) :
    play Settings.default (filterVerdict FilterSettings.default) s es = play Settings.default betHome s es :=
  Lib.run_congr (fun s e hf => turn_congr s e fun a ha x hx => filterVerdict_favoured (hf a ha x hx)) h

/-- A bet in the first minute of a match. -/
def bet : List Event :=
  [.publish (quoted "1'" 0), .listen, .get 0 60, .send 0 5 10, .execute 1700000000000000000 true]

/-- The match is over, and its id is up again. -/
def whistle : List Event := [.publish (quoted "FULLTIME" 1), .listen, .get 1 0]

theorem one_cycle_grades_its_own :
    let s := play Settings.default betHome (start 4 Paper.Orders.empty 0) (bet ++ [.read true] ++ whistle ++ [.read true])
    s.graded = [⟨"paper_1700000000000000000", 0, 1⟩] ∧ GradedLater s := by
  refine ⟨by decide +kernel, ?_⟩
  exact graded_later Settings.default betHome 4 Paper.Orders.empty 0 _ (by decide +kernel) _ (List.prefix_refl _)

/-- The frame of the last cycle's score waits for PaperRunLoop while the next cycle's order
    is placed. -/
theorem the_last_cycle_grades_the_next :
    ¬ GradedLater (play Settings.default (filterVerdict FilterSettings.default) (start 4 Paper.Orders.empty 0)
      (whistle ++ bet ++ [.read true])) := by
  rw [play_favoured _ (by decide +kernel)]
  decide +kernel

end Desk

end CasuyaLive.System
