/-
  CasuyaLive.System.SignalDesk — the signal desk and the executor it listens to
  (execution-engine-go, internal/api/server.go: `streamSignals`, `activeSignals`;
  internal/broker/signals.go: `BuildSignal`; web-interface-js,
  frontend/src/app/signals/page.jsx: `load`; frontend/src/hooks/useSignalStream.js).

  The executor publishes a signal for each call it fills; whoever listens gets it, and the
  page listens while its socket is open. An effect of the page asks for the active orders,
  at once and with a timer, and runs anew when `connected` has changed. When a load has its
  four answers the page seeds its queue with the orders, unless the effect that began the
  load is disposed, saw the stream up, or another of the answers failed. The answer may be
  old by then. HGETALL answers in no fixed order; here it goes in table order.

  `desk_sound`: in every run the queue shows no order twice, 60 at most, and none that was
  not placed; once a load that seeds has come, it shows every order of the answer, or is full.
-/

import CasuyaLive.System.Acknowledgements
import CasuyaLive.Dashboard.SignalStream
import CasuyaLive.Lib.JsonText

namespace CasuyaLive.System

open CasuyaLive.Lib CasuyaLive.Execution CasuyaLive.Dashboard

/-! ## The text of a signal -/

section

-- the literal that encoding/json prints of a double
variable (lit : ℚ → Json.Lit)

def textField (t : Table String String) (key : String) : List (String × Json Json.Lit String) :=
  ((t.get? key).map fun v => (key, Json.str v)).toList

def numberField (key : String) (q : Option ℚ) : List (String × Json Json.Lit String) :=
  (q.map fun q => (key, Json.num (lit q))).toList

/-- A map is marshalled in the order of its keys. -/
def Signal.fields (s : Signal) : List (String × Json Json.Lit String) :=
  textField s.about "away_team" ++ textField s.about "clock" ++ textField s.about "home_team" ++
    numberField lit "implied_prob" s.impliedProb ++ textField s.about "league" ++
    [("market", .str s.market), ("market_label", .str s.marketLabel), ("match_id", .str s.matchID), ("odds", .num (lit s.odds)),
      ("order_id", .str s.orderID)] ++
    numberField lit "raw_odds" s.rawOdds ++
    [("side", .str s.side), ("stake", .num (lit s.stake)), ("timestamp", .num (.ofInt s.timestamp))] ++
    numberField lit "true_prob" s.trueProb ++ [("type", .str "signal")]

def Signal.text (s : Signal) : String := String.ofList (Json.go.text (.obj (s.fields lit)))

/-- What a page reads of it. -/
def Signal.value (s : Signal) : Json.Parsed := Json.go.value (.obj (s.fields lit))

theorem parse_signal (s : Signal) : Json.parse (s.text lit).toList = some (s.value lit) := by
  rw [Signal.text, String.toList_ofList, Json.Quoting.parse_text, Signal.value]

theorem numberField_key {key : String} {q : Option ℚ} {f : String × Json Json.Lit String} (h : f ∈ numberField lit key q) :
    f.1 = key := by
  rw [numberField, Option.mem_toList, Option.map_eq_some_iff] at h
  obtain ⟨v, -, rfl⟩ := h
  rfl

theorem find?_none_of_key {l : List (String × Json Json.Lit String)} {own key : String} (h : ∀ f ∈ l, f.1 = own)
    (hne : own ≠ key) : l.reverse.find? (fun f => decide (f.1 = key)) = none := by
  rw [List.find?_eq_none]
  intro f hf he
  rw [decide_eq_true_eq, h f (List.mem_reverse.mp hf)] at he
  exact hne he

theorem signal_order (s : Signal) : (s.value lit).get? (Json.ofString "order_id") = some (.str (Json.ofString s.orderID)) := by
  rw [Signal.value, Json.get?_go, Signal.fields]
  simp only [List.reverse_append, List.find?_append,
    find?_none_of_key (fun f hf => numberField_key lit (q := s.trueProb) hf) (by decide : "true_prob" ≠ "order_id"),
    find?_none_of_key (fun f hf => numberField_key lit (q := s.rawOdds) hf) (by decide : "raw_odds" ≠ "order_id")]
  rfl

end

/-! ## The desk -/

/-- What `activeSignals` reads: the pending orders and the hashes of their matches. -/
structure Asked where
  orders : Paper.Orders
  metas : String → Option (Table String String)

def activeSignals (a : Asked) : List Signal := a.orders.fills.map fun x => buildSignal (a.metas x.2.matchID) x.2 0 0 0

/-- A run of the page's effect, and the `connected` it closed over. -/
structure Effect where
  number : Nat
  connected : Bool
  deriving DecidableEq

structure DeskWorld where
  book : Book
  page : Hook (List Json.Parsed)
  /-- Signals on their way to the page's socket. -/
  wire : List Signal
  /-- The effect that stands; those before it are disposed. -/
  effect : Effect
  /-- Loads the engine has not answered, by the effects that began them. -/
  loads : List Effect
  /-- Answers on their way to the page. -/
  answers : List (Effect × Asked)

inductive DeskEvent where
  /-- A call or a grading; whether the engine relays what it publishes. -/
  | executor (e : PaperEvent) (relayed : Bool)
  | deliver
  | opened
  | error
  | closed
  | fired
  | unmount
  /-- The page has rendered. -/
  | rendered
  /-- The page's own timer fires. -/
  | timer
  /-- The engine answers a load's request for the active orders. -/
  | asked (i : Nat) (metas : String → Option (Table String String))
  /-- The last of the load's answers reaches the page; whether the three others are good. -/
  | answered (i : Nat) (others : Bool)

section

variable (d : Doubles) (hmac : Analytics.Hmac) (accessToken : String) (b : Browser) (lit : ℚ → Json.Lit)

/-- The list the page is given. -/
def Asked.list (a : Asked) : List Json.Parsed := (activeSignals a).map (Signal.value lit)

def DeskWorld.socket (w : DeskWorld) (e : HookEvent) : DeskWorld := { w with page := (w.page.turn (onSignal b) e).1 }

def DeskWorld.load (w : DeskWorld) (e : Effect) : DeskWorld := { w with effect := e, loads := w.loads ++ [e] }

def DeskWorld.step (w : DeskWorld) : DeskEvent → DeskWorld
  | .executor e relayed =>
    let book := answer d hmac accessToken w.book e
    { w with book := book, wire := if relayed then w.wire ++ book.signals.drop w.book.signals.length else w.wire }
  | .deliver =>
    match w.wire with
    | [] => w
    | sig :: rest => { w.socket b (.message (sig.text lit)) with wire := rest }
  | .opened => w.socket b .opened
  | .error => w.socket b .error
  | .closed => { w.socket b .closed with wire := [] }
  | .fired => w.socket b .fired
  | .unmount => w.socket b .unmount
  | .rendered =>
    if w.page.mounted = false ∨ w.effect.connected = w.page.connected then w
    else w.load ⟨w.effect.number + 1, w.page.connected⟩
  | .timer => if w.page.mounted = false then w else w.load w.effect
  | .asked i metas =>
    match w.loads[i]? with
    | none => w
    | some e => { w with loads := w.loads.eraseIdx i, answers := w.answers ++ [(e, ⟨w.book.orders, metas⟩)] }
  | .answered i others =>
    match w.answers[i]? with
    | none => w
    | some (e, a) =>
      -- `disposed` and `connected` are those of the effect that began the load
      if w.page.mounted = false ∨ e ≠ w.effect ∨ e.connected = true ∨ others = false then
        { w with answers := w.answers.eraseIdx i }
      else { w with answers := w.answers.eraseIdx i, page := { w.page with state := seedSignals b w.page.state (a.list lit) } }

def DeskWorld.start (book : Book) : DeskWorld := ⟨book, Hook.mount [], [], ⟨0, false⟩, [⟨0, false⟩], []⟩

/-- A signal of an order that was placed. -/
def Placed (book : Book) (sig : Signal) : Prop := sig.orderID ∈ book.used

/-- No signal is of an order that was not placed. -/
def Book.Signalled (book : Book) : Prop := ∀ sig ∈ book.signals, Placed book sig

structure DeskSound (w : DeskWorld) : Prop where
  queued : ∃ log, Queued b log w.page.state
  placed : ∀ x ∈ w.page.state, ∃ sig, x = Signal.value lit sig ∧ Placed w.book sig
  wire : ∀ sig ∈ w.wire, Placed w.book sig
  signals : w.book.Signalled
  answers : ∀ x ∈ w.answers, ∀ id ∈ x.2.orders.ids, id ∈ w.book.used

/-- Every order of the answer is on the queue, or the queue is full. -/
def Covers (a : Asked) (queue : List Json.Parsed) : Prop :=
  queue.length = 60 ∨ ∀ id ∈ a.orders.ids, ∃ x ∈ queue, x.get? (Json.ofString "order_id") = some (.str (Json.ofString id))

/-! ## The executor -/

variable {d hmac accessToken}

theorem execute_grows {s : Book} (h : s.Signalled) (raw : String) (x : Answers) :
    s.used ⊆ (executeEnvelope d hmac s raw x).2.used ∧ (executeEnvelope d hmac s raw x).2.Signalled := by
  rcases @executeEnvelope_cases d hmac s raw x with ⟨e, he, -⟩ | ⟨p, fill, -, -, -, -, he⟩
  · rw [he]
    exact ⟨List.Subset.refl _, h⟩
  · rw [he]
    have hused : (publishSignal (logFill s fill x.recorded) x fill (d.val p.odds) (d.val p.trueProb) (d.val p.implied)).used =
        fill.orderID :: s.used := by rw [publishSignal_used, logFill_used]
    refine ⟨by rw [hused]; exact List.subset_cons_self _ _, fun sig hsig => ?_⟩
    rw [Placed, hused]
    rcases publishSignal_signals (logFill s fill x.recorded) x fill (d.val p.odds) (d.val p.trueProb) (d.val p.implied) with
      hquiet | ⟨new, hnew, hof⟩
    · rw [hquiet, logFill_signals] at hsig
      exact List.mem_cons_of_mem _ (h sig hsig)
    · rw [hnew, logFill_signals, List.mem_append, List.mem_singleton] at hsig
      rcases hsig with hsig | rfl
      · exact List.mem_cons_of_mem _ (h sig hsig)
      · rw [hof.orderID]
        exact List.mem_cons_self

theorem answer_grows {s : Book} (h : s.Signalled) (e : PaperEvent) :
    s.used ⊆ (answer d hmac accessToken s e).used ∧ (answer d hmac accessToken s e).Signalled := by
  cases e with
  | command raw x => exact execute_grows h raw x
  | http r x =>
    rw [answer]
    rcases @httpExecute_cases d hmac accessToken s r x with ⟨raw, -, he, -⟩ | ⟨-, he, -⟩
    · rw [he]
      exact execute_grows h raw x
    · rw [he]
      exact ⟨List.Subset.refl _, h⟩
  | graded ids => exact ⟨List.Subset.refl _, h⟩

/-! ## The queue -/

variable {b lit}

theorem sameOrder_signal (s t : Signal) : sameOrder b (s.value lit) (t.value lit) = true ↔ s.orderID = t.orderID := by
  have hid : ∀ u : Signal, b.idOf "order_id" (u.value lit) = some (.text (Json.ofString u.orderID)) := by
    intro u
    rw [Browser.idOf, signal_order]
    rfl
  rw [sameOrder, sameBy, hid, hid, Option.isSome_some, Bool.true_and, beq_iff_eq, Option.some.injEq, Primitive.text.injEq,
    Json.ofString_inj]

theorem list_ids (a : Asked) : (activeSignals a).map Signal.orderID = a.orders.ids := by
  rw [activeSignals, Paper.Orders.ids, List.map_map]
  exact List.map_congr_left fun x hx => a.orders.fills_key hx

theorem list_distinct (a : Asked) : Distinct (sameOrder b) (a.list lit) := by
  have hnodup := a.orders.ids_nodup
  rw [← list_ids a, List.Nodup, List.pairwise_map] at hnodup
  rw [Distinct, Asked.list, List.pairwise_map]
  refine hnodup.imp fun {s t} hne => ?_
  rw [sameOrder_signal]
  exact fun he => hne he.symm

/-- Every entry seeded has its order on the queue, or the queue is full. -/
theorem seed_covers (a : Asked) {prev : List Json.Parsed} (hlen : prev.length ≤ 60)
    (hprev : ∀ x ∈ prev, ∃ sig, x = Signal.value lit sig) : Covers a (seedSignals b prev (a.list lit)) := by
  rw [seedSignals_eq b prev _ hlen]
  by_cases hroom : (prev ++ (a.list lit).filter fun s => !prev.any (sameOrder b s)).length ≤ 60
  · refine Or.inr fun id hid => ?_
    rw [List.take_of_length_le hroom]
    rw [← list_ids a] at hid
    obtain ⟨sig, hsig, rfl⟩ := List.mem_map.mp hid
    have hmem : sig.value lit ∈ a.list lit := List.mem_map_of_mem hsig
    cases hany : prev.any (sameOrder b (sig.value lit)) with
    | true =>
      obtain ⟨x, hx, hsame⟩ := List.any_eq_true.mp hany
      obtain ⟨other, rfl⟩ := hprev x hx
      rw [sameOrder_signal] at hsame
      exact ⟨other.value lit, List.mem_append_left _ hx, by rw [signal_order, hsame]⟩
    | false =>
      refine ⟨sig.value lit, List.mem_append_right _ (List.mem_filter.mpr ⟨hmem, ?_⟩), signal_order lit sig⟩
      rw [hany]
      rfl
  · refine Or.inl ?_
    rw [List.length_take]
    omega

theorem queued_distinct {log queue : List Json.Parsed} (h : Queued b log queue) : Distinct (sameOrder b) queue := by
  rw [h]
  exact (newest_distinct (sameOrder b) log).sublist (List.take_sublist _ _)

theorem queued_short {log queue : List Json.Parsed} (h : Queued b log queue) : queue.length ≤ 60 := by
  rw [h]
  exact List.length_take_le 60 _

theorem touch_mem {α : Type} {same : α → α → Bool} {n : Nat} {l : List α} {a x : α} (h : x ∈ touch same n l a) :
    x = a ∨ x ∈ l := by
  rcases List.mem_cons.mp (List.mem_of_mem_take h) with h | h
  · exact Or.inl h
  · exact Or.inr (List.mem_of_mem_filter h)

theorem seed_mem {prev list : List Json.Parsed} {x : Json.Parsed} (hlen : prev.length ≤ 60)
    (h : x ∈ seedSignals b prev list) : x ∈ prev ∨ x ∈ list := by
  rw [seedSignals_eq b prev list hlen] at h
  rcases List.mem_append.mp (List.mem_of_mem_take h) with h | h
  · exact Or.inl h
  · exact Or.inr (List.mem_of_mem_filter h)

/-! ## Every step -/

theorem mount_sound {book : Book} (h : book.Signalled) : DeskSound b lit (DeskWorld.start book) where
  queued := ⟨[], rfl⟩
  placed := fun _ hx => absurd hx List.not_mem_nil
  wire := fun _ hsig => absurd hsig List.not_mem_nil
  signals := h
  answers := fun _ ha => absurd ha List.not_mem_nil

/-- A socket's event leaves the queue, or brings a signal of the wire to its front. -/
theorem socket_sound {w : DeskWorld} (h : DeskSound b lit w) (e : HookEvent)
    (he : ∀ text, e = .message text → ∃ sig, text = sig.text lit ∧ Placed w.book sig) : DeskSound b lit (w.socket b e) := by
  rcases socket_cases b w.page e with ⟨text, f, hmsg, hparse, -, hstate⟩ | ⟨-, hstate⟩
  · obtain ⟨sig, rfl, hplaced⟩ := he text hmsg
    rw [parse_signal, Option.some.injEq] at hparse
    subst hparse
    obtain ⟨log, hq⟩ := h.queued
    refine ⟨⟨log ++ [sig.value lit], ?_⟩, fun x hx => ?_, h.wire, h.signals, h.answers⟩
    · rw [DeskWorld.socket]
      exact hstate ▸ signal_queued b hq _
    · have hx' : x ∈ touch (sameOrder b) 60 w.page.state (sig.value lit) := hstate ▸ hx
      rcases touch_mem hx' with rfl | hx'
      · exact ⟨sig, rfl, hplaced⟩
      · exact h.placed x hx'
  · have hsame : (w.socket b e).page.state = w.page.state := hstate
    exact ⟨hsame ▸ h.queued, fun x hx => h.placed x (hsame ▸ hx), h.wire, h.signals, h.answers⟩

variable (d hmac accessToken)

/-- The executor places what it places, and some of its signals go on the wire. -/
theorem executor_sound {w : DeskWorld} (h : DeskSound b lit w) (e : PaperEvent) (relayed : Bool) :
    DeskSound b lit (w.step d hmac accessToken b lit (.executor e relayed)) := by
  obtain ⟨hused, hsignals⟩ := @answer_grows d hmac accessToken w.book h.signals e
  refine ⟨h.queued, fun x hx => ?_, fun sig hsig => ?_, hsignals, fun a ha id hid => hused (h.answers a ha id hid)⟩
  · obtain ⟨sig, hsig, hplaced⟩ := h.placed x hx
    exact ⟨sig, hsig, hused hplaced⟩
  · simp only [DeskWorld.step] at hsig
    split at hsig
    · rcases List.mem_append.mp hsig with hsig | hsig
      · exact hused (h.wire sig hsig)
      · exact hsignals sig (List.mem_of_mem_drop hsig)
    · exact hused (h.wire sig hsig)

theorem deliver_sound {w : DeskWorld} (h : DeskSound b lit w) : DeskSound b lit (w.step d hmac accessToken b lit .deliver) := by
  rw [DeskWorld.step]
  cases hw : w.wire with
  | nil => exact h
  | cons sig rest =>
    have hwire : ∀ other ∈ sig :: rest, Placed w.book other := hw ▸ h.wire
    have hs := socket_sound h (.message (sig.text lit)) fun text ht =>
      ⟨sig, (HookEvent.message.inj ht).symm, hwire sig List.mem_cons_self⟩
    exact ⟨hs.queued, hs.placed, fun other ho => hwire other (List.mem_cons_of_mem _ ho), hs.signals, hs.answers⟩

/-- The page seeds its queue with an answer, which may be old. -/
theorem answered_sound {w : DeskWorld} (h : DeskSound b lit w) (i : Nat) (others : Bool) :
    DeskSound b lit (w.step d hmac accessToken b lit (.answered i others)) := by
  have hrest : ∀ x ∈ w.answers.eraseIdx i, ∀ id ∈ x.2.orders.ids, id ∈ w.book.used := fun x hx =>
    h.answers x (List.mem_of_mem_eraseIdx hx)
  rw [DeskWorld.step]
  cases ha : w.answers[i]? with
  | none => exact h
  | some x =>
    obtain ⟨e, a⟩ := x
    simp only
    split
    · exact ⟨h.queued, h.placed, h.wire, h.signals, hrest⟩
    · obtain ⟨log, hq⟩ := h.queued
      refine ⟨⟨(a.list lit).reverse ++ log, seed_queued b hq (list_distinct a)⟩, fun x hx => ?_, h.wire, h.signals, hrest⟩
      rcases seed_mem (queued_short hq) hx with hx | hx
      · exact h.placed x hx
      · obtain ⟨sig, hsig, rfl⟩ := List.mem_map.mp hx
        have hid : sig.orderID ∈ a.orders.ids := list_ids a ▸ List.mem_map_of_mem hsig
        exact ⟨sig, rfl, h.answers (e, a) (List.mem_of_getElem? ha) _ hid⟩

/-- The engine reads the orders as they are. -/
theorem asked_sound {w : DeskWorld} (h : DeskSound b lit w) (i : Nat) (metas : String → Option (Table String String)) :
    DeskSound b lit (w.step d hmac accessToken b lit (.asked i metas)) := by
  rw [DeskWorld.step]
  split
  · exact h
  · refine ⟨h.queued, h.placed, h.wire, h.signals, fun x hx id hid => ?_⟩
    rcases List.mem_append.mp hx with hx | hx
    · exact h.answers x hx id hid
    · rw [List.mem_singleton.mp hx] at hid
      obtain ⟨fill, hfill⟩ := (w.book.orders.mem_ids id).mp hid
      exact w.book.known id _ hfill

theorem load_sound {w : DeskWorld} (h : DeskSound b lit w) (e : Effect) : DeskSound b lit (w.load e) :=
  ⟨h.queued, h.placed, h.wire, h.signals, h.answers⟩

theorem event_sound {w : DeskWorld} (h : DeskSound b lit w) (e : DeskEvent) :
    DeskSound b lit (w.step d hmac accessToken b lit e) := by
  cases e with
  | executor e relayed => exact executor_sound d hmac accessToken h e relayed
  | deliver => exact deliver_sound d hmac accessToken h
  | opened => exact socket_sound h .opened nofun
  | error => exact socket_sound h .error nofun
  | closed =>
    have hs := socket_sound h .closed nofun
    exact ⟨hs.queued, hs.placed, fun _ hsig => absurd hsig List.not_mem_nil, hs.signals, hs.answers⟩
  | fired => exact socket_sound h .fired nofun
  | unmount => exact socket_sound h .unmount nofun
  | rendered =>
    rw [DeskWorld.step]
    split
    · exact h
    · exact load_sound h _
  | timer =>
    rw [DeskWorld.step]
    split
    · exact h
    · exact load_sound h _
  | asked i metas => exact asked_sound d hmac accessToken h i metas
  | answered i others => exact answered_sound d hmac accessToken h i others

theorem desk_run_sound {book : Book} (h : book.Signalled) (es : List DeskEvent) :
    DeskSound b lit (es.foldl (DeskWorld.step d hmac accessToken b lit) (DeskWorld.start book)) :=
  fold_inv (DeskSound b lit) (fun _ e hw => event_sound d hmac accessToken hw e) es (mount_sound h)

/-- The desk in every state of every run. -/
theorem desk_sound (b : Browser) (lit : ℚ → Json.Lit) {book : Book} (hbook : book.Signalled) (es : List DeskEvent) :
    let w := es.foldl (DeskWorld.step d hmac accessToken b lit) (DeskWorld.start book)
    Distinct (sameOrder b) w.page.state ∧ w.page.state.length ≤ 60 ∧
      (∀ x ∈ w.page.state, ∃ sig, x = Signal.value lit sig ∧ sig.orderID ∈ w.book.used) ∧
      ∀ i a, w.answers[i]? = some (w.effect, a) → w.page.mounted = true → w.effect.connected = false →
        Covers a (w.step d hmac accessToken b lit (.answered i true)).page.state := by
  have h : DeskSound b lit (es.foldl (DeskWorld.step d hmac accessToken b lit) (DeskWorld.start book)) :=
    desk_run_sound d hmac accessToken hbook es
  obtain ⟨log, hq⟩ := h.queued
  refine ⟨queued_distinct hq, queued_short hq, h.placed, fun i a ha hm hc => ?_⟩
  simp only [DeskWorld.step, ha, hm, hc, ne_eq, not_true_eq_false, Bool.true_eq_false, Bool.false_eq_true, or_self, if_false]
  exact seed_covers a (queued_short hq) fun x hx => (h.placed x hx).imp fun _ hs => hs.1

/-! ## One order -/

/-- A bet is placed while the page's socket is not up; then the engine reads the orders for the page's first load. -/
def oneBet : List DeskEvent := [.executor (.command bet ⟨1714571280000000000, true, none, true⟩) false, .asked 0 fun _ => none]

theorem empty_signalled : Book.empty.Signalled := fun _ hsig => absurd hsig List.not_mem_nil

def deskRun (es : List DeskEvent) : DeskWorld :=
  es.foldl (DeskWorld.step decimals (fun _ _ => []) "" ⟨fun _ => none⟩ fun _ => .ofInt 0) (DeskWorld.start Book.empty)

theorem a_bet_is_shown : ∃ a, (deskRun oneBet).answers[0]? = some (⟨0, false⟩, a) ∧
    Covers a (deskRun (oneBet ++ [.answered 0 true])).page.state :=
  ⟨_, rfl, (desk_sound decimals (fun _ _ => []) "" ⟨fun _ => none⟩ (fun _ => .ofInt 0) empty_signalled
    oneBet).2.2.2 0 _ rfl rfl rfl⟩

end

end CasuyaLive.System
