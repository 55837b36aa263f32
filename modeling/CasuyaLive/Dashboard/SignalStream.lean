/-
  CasuyaLive.Dashboard.SignalStream — the queue of the signal desk (web-interface-js,
  frontend/src/hooks/useSignalStream.js).

  A signal goes to the front of the queue and replaces the one of its order. While the
  stream is down the page loads the active orders and seeds the queue with them: those it
  does not know go to its end.

  `queue_newest`: in every run of frames and seeds, over all sockets, the queue is the 60
  newest of one log (`received`), the last signal of each order in it, where a seed counts
  as received before all else.
-/

import CasuyaLive.Dashboard.Feed

namespace CasuyaLive.Dashboard

open CasuyaLive.Lib

inductive StreamEvent where
  | socket (e : HookEvent)
  | seed (list : List Json.Parsed)

/-- What changes the queue. -/
inductive Arrival where
  | signal (frame : Json.Parsed)
  | seeded (list : List Json.Parsed)

/-- The log after an arrival. -/
def Arrival.addTo (log : List Json.Parsed) : Arrival → List Json.Parsed
  | .signal frame => log ++ [frame]
  | .seeded list => list.reverse ++ log

def received (as : List Arrival) : List Json.Parsed := as.foldl Arrival.addTo []

variable (b : Browser)

def sameOrder : Json.Parsed → Json.Parsed → Bool := sameBy (b.idOf "order_id")

def isSignal (frame : Json.Parsed) : Bool := isType "signal" frame && (b.field "order_id" frame).isSome

def seedSignals (prev list : List Json.Parsed) : List Json.Parsed :=
  if list.isEmpty then prev
  else if prev.isEmpty then list.take 60
  else (prev ++ list.filter fun s => !prev.any (sameOrder b s)).take 60

/-- `onmessage`. -/
def onSignal (prev : List Json.Parsed) (frame : Json.Parsed) : List Json.Parsed :=
  if isSignal b frame then touch (sameOrder b) 60 prev frame else prev

def arrivalOf : Note → Option Arrival
  | .up => none
  | .down => none
  | .frame f => if isSignal b f then some (.signal f) else none

def SignalStream.turn (h : Hook (List Json.Parsed)) : StreamEvent → Hook (List Json.Parsed) × List Arrival
  | .socket e => ((h.turn (onSignal b) e).1, (h.turn (onSignal b) e).2.filterMap (arrivalOf b))
  | .seed list => ({ h with state := seedSignals b h.state list }, [.seeded list])

/-- No order is listed twice. -/
def SeedsDistinct (es : List StreamEvent) : Prop := ∀ list, StreamEvent.seed list ∈ es → Distinct (sameOrder b) list

def Queued (log : List Json.Parsed) (queue : List Json.Parsed) : Prop := queue = (newest (sameOrder b) log).take 60

theorem seedSignals_eq (prev list : List Json.Parsed) (h : prev.length ≤ 60) :
    seedSignals b prev list = (prev ++ list.filter fun s => !prev.any (sameOrder b s)).take 60 := by
  unfold seedSignals
  split
  · rename_i hl
    rw [List.isEmpty_iff.mp hl, List.filter_nil, List.append_nil, List.take_of_length_le h]
  · split
    · rename_i hp
      rw [List.isEmpty_iff.mp hp, List.nil_append]
      simp
    · rfl

theorem seed_queued {log prev list : List Json.Parsed} (h : Queued b log prev) (hl : Distinct (sameOrder b) list) :
    Queued b (list.reverse ++ log) (seedSignals b prev list) := by
  have hkinds : Kinds (sameOrder b) := sameBy_kinds _
  have hlen : prev.length ≤ 60 := by
    rw [h]
    exact List.length_take_le 60 _
  rw [Queued, seedSignals_eq b prev list hlen, newest_prepend hkinds log (by rwa [List.reverse_reverse]), List.filter_reverse,
    List.reverse_reverse]
  by_cases hfull : (newest (sameOrder b) log).length ≤ 60
  · -- the queue holds every order of the log
    rw [Queued, List.take_of_length_le hfull] at h
    rw [h]
    simp only [any_newest hkinds]
  · rw [not_le] at hfull
    have hprev : prev.length = 60 := by
      rw [h, List.length_take]
      omega
    rw [List.take_append_of_le_length (by omega), List.take_append_of_le_length (by omega), List.take_of_length_le hlen]
    exact h

theorem signal_queued {log prev : List Json.Parsed} (h : Queued b log prev) (frame : Json.Parsed) :
    Queued b (log ++ [frame]) (touch (sameOrder b) 60 prev frame) := by
  rw [Queued, h]
  exact touch_take (sameBy_kinds _) 60 log frame

theorem received_append (as bs : List Arrival) : received (as ++ bs) = bs.foldl Arrival.addTo (received as) :=
  List.foldl_append

/-- A socket's event brings the signal of its text, or leaves the queue as it is. -/
theorem socket_cases (h : Hook (List Json.Parsed)) (e : HookEvent) :
    (∃ text f, e = .message text ∧ Json.parse text.toList = some f ∧ (SignalStream.turn b h (.socket e)).2 = [.signal f] ∧
      (SignalStream.turn b h (.socket e)).1.state = touch (sameOrder b) 60 h.state f) ∨
    ((SignalStream.turn b h (.socket e)).2 = [] ∧ (SignalStream.turn b h (.socket e)).1.state = h.state) := by
  cases e with
  | message text =>
    rw [SignalStream.turn, Hook.turn]
    split
    · exact Or.inr ⟨rfl, rfl⟩
    · cases hf : Json.parse text.toList with
      | none => exact Or.inr ⟨rfl, rfl⟩
      | some f =>
        cases hs : isSignal b f with
        | true => exact Or.inl ⟨text, f, rfl, hf, by simp [arrivalOf, hs], by simp [onSignal, hs]⟩
        | false => exact Or.inr ⟨by simp [arrivalOf, hs], by simp [onSignal, hs]⟩
  | opened =>
    rw [SignalStream.turn, Hook.turn]
    split <;> exact Or.inr ⟨rfl, rfl⟩
  | error => exact Or.inr ⟨rfl, rfl⟩
  | closed =>
    rw [SignalStream.turn, Hook.turn]
    split <;> exact Or.inr ⟨rfl, rfl⟩
  | fired =>
    rw [SignalStream.turn, Hook.turn]
    split
    · exact Or.inr ⟨rfl, rfl⟩
    · refine Or.inr ⟨rfl, ?_⟩
      rw [Hook.connect]
      split <;> rfl
  | token held =>
    rw [SignalStream.turn, Hook.turn]
    split
    · exact Or.inr ⟨rfl, rfl⟩
    · split <;> exact Or.inr ⟨rfl, rfl⟩
  | unmount => exact Or.inr ⟨rfl, rfl⟩

theorem turn_queued {as : List Arrival} {h : Hook (List Json.Parsed)} (hq : Queued b (received as) h.state) (e : StreamEvent)
    (he : ∀ list, e = .seed list → Distinct (sameOrder b) list) :
    Queued b (received (as ++ (SignalStream.turn b h e).2)) (SignalStream.turn b h e).1.state := by
  cases e with
  | socket e =>
    rcases socket_cases b h e with ⟨-, f, -, -, hout, hstate⟩ | ⟨hout, hstate⟩
    · rw [hout, hstate, received_append]
      exact signal_queued b hq f
    · rw [hout, hstate, List.append_nil]
      exact hq
  | seed list =>
    rw [received_append]
    exact seed_queued b hq (he list rfl)

theorem run_queued (es : List StreamEvent) (hseeds : SeedsDistinct b es) : ∀ {as : List Arrival} {h : Hook (List Json.Parsed)},
    Queued b (received as) h.state →
      Queued b (received (as ++ outputs (SignalStream.turn b) h es)) (after (SignalStream.turn b) h es).state := by
  induction es with
  | nil =>
    intro as h hq
    rw [outputs_nil, List.append_nil]
    exact hq
  | cons e es ih =>
    intro as h hq
    have hturn := turn_queued b hq e fun list he => hseeds list (by rw [he]; exact List.mem_cons_self)
    have hrest := ih (fun list he => hseeds list (List.mem_cons_of_mem _ he)) hturn
    rw [List.append_assoc] at hrest
    exact hrest

/-- The queue of the desk after any run of frames and seeds. -/
theorem queue_newest (es : List StreamEvent) (hseeds : SeedsDistinct b es) :
    (after (SignalStream.turn b) (Hook.mount []) es).state =
      (newest (sameOrder b) (received (outputs (SignalStream.turn b) (Hook.mount []) es))).take 60 := by
  have hempty : Queued b (received []) (Hook.mount ([] : List Json.Parsed)).state := rfl
  exact run_queued b es hseeds hempty

/-- One order is listed while the stream is down; then the stream brings another one. -/
def oneOfEach : List StreamEvent :=
  [.seed [.obj [(Json.ofString "order_id", .str (Json.ofString "paper_1"))]], .socket .opened,
    .socket (.message "\x7b\"type\":\"signal\",\"order_id\":\"paper_2\"\x7d")]

theorem queue_of_two : (after (SignalStream.turn ⟨fun _ => none⟩) (Hook.mount []) oneOfEach).state =
    (newest (sameOrder ⟨fun _ => none⟩) (received (outputs (SignalStream.turn ⟨fun _ => none⟩) (Hook.mount []) oneOfEach))).take 60 := by
  refine queue_newest ⟨fun _ => none⟩ oneOfEach fun list h => ?_
  simp only [oneOfEach, List.mem_cons, StreamEvent.seed.injEq, reduceCtorEq, List.not_mem_nil, or_false] at h
  rw [h]
  exact List.pairwise_singleton _ _

end CasuyaLive.Dashboard
