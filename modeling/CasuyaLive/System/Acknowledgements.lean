/-
  CasuyaLive.System.Acknowledgements — what the paper executor answers and what it records
  (execution-engine-go, internal/broker/interfaces.go: `ExecuteEnvelope`, `PlaceOrder`,
  `logFill`; internal/broker/signals.go: `BuildSignal`, `publishSignal`;
  internal/api/server.go: `execute`).

  A call reads the clock and sends up to three Redis commands; `Answers` says which take
  effect. Without a Redis client none does. The error of the write is logged, and the call
  goes on. Calls come from the command channel and over HTTP, and grading deletes orders
  between them. `Book.used` is not in the source: every order id placed so far.

  `acknowledged_iff`: in a run each accepted call adds its order and nothing else does, and
  each signal is of a recorded order, exactly when the write of every accepted envelope
  takes effect under an id that was not placed before. A lost write is acknowledged and
  signalled, and one clock reading is one id (`a_lost_write_is_acknowledged`).
-/

import CasuyaLive.Lib.Run
import CasuyaLive.Execution.Paper.Store
import CasuyaLive.System.Envelopes

namespace CasuyaLive.System

open CasuyaLive.Lib CasuyaLive.Analytics CasuyaLive.Execution

/-! ## Signals -/

/-- The operator-facing view of a fill. -/
structure Signal where
  orderID : String
  matchID : String
  market : String
  side : String
  marketLabel : String
  odds : ℚ
  stake : ℚ
  timestamp : Int
  rawOdds : Option ℚ
  trueProb : Option ℚ
  impliedProb : Option ℚ
  /-- Teams, league and clock, where the match hash has them. -/
  about : Table String String

def marketLabel (market side : String) : String := market ++ " " ++ side

def positive (q : ℚ) : Option ℚ := if 0 < q then some q else none

/-- `matchMeta` is what HGETALL answered, `none` when it failed. -/
def buildSignal (matchMeta : Option (Table String String)) (fill : Fill) (rawOdds trueProb impliedProb : ℚ) : Signal :=
  { orderID := fill.orderID
    matchID := fill.matchID
    market := fill.market
    side := fill.side
    marketLabel := marketLabel fill.market fill.side
    odds := fill.odds
    stake := fill.stake
    timestamp := fill.fillAt / 1000000
    rawOdds := positive rawOdds
    trueProb := positive trueProb
    impliedProb := positive impliedProb
    about :=
      if fill.matchID = "" then Table.empty
      else (matchMeta.getD Table.empty).filter fun k =>
        ["home_team", "away_team", "league", "clock"].contains k && ((matchMeta.getD Table.empty).get? k).getD "" != "" }

/-! ## Calls -/

/-- The pending orders, the ids placed so far and the signals sent. -/
structure Book where
  orders : Paper.Orders
  used : List String
  signals : List Signal
  known : ∀ id v, orders.table.get? id = some v → id ∈ used

def Book.empty : Book := ⟨Paper.Orders.empty, [], [], by intro id v h; simp [Paper.Orders.empty] at h⟩

/-- The clock of a call, and what Redis does. -/
structure Answers where
  now : Int
  /-- HSET takes effect. -/
  recorded : Bool
  matchMeta : Option (Table String String)
  /-- PUBLISH takes effect. -/
  signalled : Bool

inductive ExecuteError where
  | verify (e : Live.EnvelopeError)
  | stake
  deriving DecidableEq

/-- The order is placed, and its write takes effect or not. -/
def logFill (s : Book) (fill : Fill) (recorded : Bool) : Book :=
  if recorded then
    { s with
      orders := s.orders.insert fill
      used := fill.orderID :: s.used
      known := by
        intro id v h
        simp only [Paper.Orders.insert, Table.get?_set] at h
        split at h
        · rename_i he
          rw [he]
          exact List.mem_cons_self
        · exact List.mem_cons_of_mem _ (s.known id v h) }
  else { s with used := fill.orderID :: s.used, known := fun id v h => List.mem_cons_of_mem _ (s.known id v h) }

def publishSignal (s : Book) (x : Answers) (fill : Fill) (rawOdds trueProb impliedProb : ℚ) : Book :=
  if x.signalled then { s with signals := s.signals ++ [buildSignal x.matchMeta fill rawOdds trueProb impliedProb] } else s

def orderIDAt (now : Int) : String := "paper_" ++ Text.itoa now

/-- A request to the execute endpoint; its body when it decodes is an envelope. -/
structure Request where
  method : String
  /-- X-Internal-Token, "" when it is missing. -/
  token : String
  body : Option String

inductive Reply where
  | methodNotAllowed
  | unauthorized
  | badRequest
  | rejected
  | filled
  deriving DecidableEq

inductive PaperEvent where
  | command (raw : String) (x : Answers)
  | http (r : Request) (x : Answers)
  /-- HDEL of graded orders. -/
  | graded (ids : List String)

def grade (s : Book) (ids : List String) : Book :=
  { s with
    orders := s.orders.remove ids
    known := by
      intro id v h
      simp only [Paper.Orders.remove, Table.get?_eraseAll] at h
      split at h
      · cases h
      · exact s.known id v h }

section

variable (d : Doubles) (hmac : Hmac) (accessToken : String)

def paperPayload (p : Live.ExecutionPayload d) : Paper.Payload :=
  ⟨p.matchID, p.marketID, p.side, d.val p.odds, d.val p.amount⟩

/-- The paper broker has no secret, so no signature is checked. -/
def executeEnvelope (s : Book) (raw : String) (x : Answers) : Except ExecuteError Unit × Book :=
  match Live.decodeEnvelope d hmac raw "" with
  | .error e => (.error (.verify e), s)
  | .ok p =>
    match Paper.placeOrder x.now (paperPayload d p) with
    | none => (.error .stake, s)
    | some fill =>
      (.ok (), publishSignal (logFill s fill x.recorded) x fill (d.val p.odds) (d.val p.trueProb) (d.val p.implied))

/-- No token is asked for where none is set. -/
def admitted (r : Request) : Bool := accessToken == "" || (r.token != "" && accessToken == r.token)

def httpExecute (s : Book) (r : Request) (x : Answers) : Reply × Book :=
  if r.method ≠ "POST" then (.methodNotAllowed, s)
  else if admitted accessToken r = false then (.unauthorized, s)
  else
    match r.body with
    | none => (.badRequest, s)
    | some raw =>
      match executeEnvelope d hmac s raw x with
      | (.error _, s') => (.rejected, s')
      | (.ok _, s') => (.filled, s')

def answer (s : Book) : PaperEvent → Book
  | .command raw x => (executeEnvelope d hmac s raw x).2
  | .http r x => (httpExecute d hmac accessToken s r x).2
  | .graded ids => grade s ids

/-- The call an event makes. -/
def callOf : PaperEvent → Option (String × Answers)
  | .command raw x => some (raw, x)
  | .http r x => if r.method = "POST" ∧ admitted accessToken r = true then r.body.map fun raw => (raw, x) else none
  | .graded _ => none

/-! ## What a call should do -/

/-- The fill is the payload's, its odds reduced by the slippage. -/
structure FillOf (p : Live.ExecutionPayload d) (fill : Fill) : Prop where
  matchID : fill.matchID = p.matchID
  market : fill.market = p.marketID
  side : fill.side = p.side
  stake : fill.stake = d.val p.amount
  odds : fill.odds = d.val p.odds * (1 - Paper.slippage)

/-- The signal is of the fill. -/
structure SignalOf (sig : Signal) (fill : Fill) : Prop where
  orderID : sig.orderID = fill.orderID
  matchID : sig.matchID = fill.matchID
  market : sig.market = fill.market
  side : sig.side = fill.side
  odds : sig.odds = fill.odds
  stake : sig.stake = fill.stake

/-- The call does what it answers. -/
structure Acknowledged (s : Book) (raw : String) (x : Answers) : Prop where
  filled : (executeEnvelope d hmac s raw x).1 = .ok () → ∃ p fill, Live.decodeEnvelope d hmac raw "" = .ok p ∧
    FillOf d p fill ∧ fill.orderID ∉ s.used ∧ s.orders.table.get? fill.orderID = none ∧
      (executeEnvelope d hmac s raw x).2.orders = s.orders.insert fill
  refused : (executeEnvelope d hmac s raw x).1 ≠ .ok () ↔ (executeEnvelope d hmac s raw x).2.orders = s.orders
  signals : (executeEnvelope d hmac s raw x).2.signals = s.signals ∨
    ∃ sig fill, (executeEnvelope d hmac s raw x).2.signals = s.signals ++ [sig] ∧ SignalOf sig fill ∧
      (executeEnvelope d hmac s raw x).2.orders.table.get? fill.orderID = some (some fill)

/-- If the envelope is accepted, its write takes effect, under an id not placed before. -/
def Recorded (s : Book) (raw : String) (x : Answers) : Prop :=
  ∀ p, Live.decodeEnvelope d hmac raw "" = .ok p → 0 < d.val p.amount → x.recorded = true ∧ orderIDAt x.now ∉ s.used

end

/-! ## One call -/

theorem insert_ne {o : Paper.Orders} {fill : Fill} (h : o.table.get? fill.orderID = none) : o.insert fill ≠ o := by
  intro he
  have hin : (o.insert fill).table.get? fill.orderID = some (some fill) := by simp [Paper.Orders.insert]
  rw [he, h] at hin
  cases hin

/-- The order inserted where there was none is told by its id. -/
theorem insert_id {o : Paper.Orders} {fill fill' : Fill} (h : o.table.get? fill'.orderID = none)
    (he : o.insert fill = o.insert fill') : fill'.orderID = fill.orderID := by
  by_contra hne
  have hin : (o.insert fill').table.get? fill'.orderID = some (some fill') := by simp [Paper.Orders.insert]
  rw [← he] at hin
  simp only [Paper.Orders.insert, Table.get?_set_ne _ _ hne, h] at hin
  cases hin

/-- An id that was not placed is not pending. -/
theorem Book.get?_unused (s : Book) {id : String} (h : id ∉ s.used) : s.orders.table.get? id = none := by
  cases hv : s.orders.table.get? id with
  | none => rfl
  | some v => exact absurd (s.known id v hv) h

theorem logFill_orders (s : Book) (fill : Fill) (recorded : Bool) :
    (logFill s fill recorded).orders = if recorded then s.orders.insert fill else s.orders := by
  cases recorded <;> rfl

theorem logFill_signals (s : Book) (fill : Fill) (recorded : Bool) : (logFill s fill recorded).signals = s.signals := by
  cases recorded <;> rfl

theorem logFill_used (s : Book) (fill : Fill) (recorded : Bool) : (logFill s fill recorded).used = fill.orderID :: s.used := by
  cases recorded <;> rfl

theorem publishSignal_used (s : Book) (x : Answers) (fill : Fill) (a b c : ℚ) :
    (publishSignal s x fill a b c).used = s.used := by
  unfold publishSignal
  split <;> rfl

theorem publishSignal_orders (s : Book) (x : Answers) (fill : Fill) (a b c : ℚ) :
    (publishSignal s x fill a b c).orders = s.orders := by
  unfold publishSignal
  split <;> rfl

theorem publishSignal_signals (s : Book) (x : Answers) (fill : Fill) (a b c : ℚ) :
    (publishSignal s x fill a b c).signals = s.signals ∨
      ∃ sig, (publishSignal s x fill a b c).signals = s.signals ++ [sig] ∧ SignalOf sig fill := by
  unfold publishSignal
  split
  · exact Or.inr ⟨_, rfl, rfl, rfl, rfl, rfl, rfl, rfl⟩
  · exact Or.inl rfl

variable {d : Doubles} {hmac : Hmac} {accessToken : String}

theorem placeOrder_fillOf {now : Int} {p : Live.ExecutionPayload d} {fill : Fill}
    (h : Paper.placeOrder now (paperPayload d p) = some fill) :
    0 < d.val p.amount ∧ fill.orderID = orderIDAt now ∧ FillOf d p fill := by
  unfold Paper.placeOrder at h
  split at h
  · cases h
  · rename_i hpos
    cases h
    refine ⟨not_le.mp hpos, rfl, rfl, rfl, rfl, rfl, ?_⟩
    simp only [paperPayload]
    ring

/-- A call is refused and changes nothing, or its order is placed. -/
theorem executeEnvelope_cases (s : Book) (raw : String) (x : Answers) :
    (∃ e, executeEnvelope d hmac s raw x = (.error e, s) ∧
      ∀ p, Live.decodeEnvelope d hmac raw "" = .ok p → ¬ 0 < d.val p.amount) ∨
    ∃ p fill, Live.decodeEnvelope d hmac raw "" = .ok p ∧ 0 < d.val p.amount ∧ fill.orderID = orderIDAt x.now ∧ FillOf d p fill ∧
      executeEnvelope d hmac s raw x =
        (.ok (), publishSignal (logFill s fill x.recorded) x fill (d.val p.odds) (d.val p.trueProb) (d.val p.implied)) := by
  cases hp : Live.decodeEnvelope d hmac raw "" with
  | error e => exact Or.inl ⟨.verify e, by simp only [executeEnvelope, hp], fun p h => by cases h⟩
  | ok p =>
    cases hf : Paper.placeOrder x.now (paperPayload d p) with
    | none =>
      refine Or.inl ⟨.stake, by simp only [executeEnvelope, hp, hf], fun q hq hpos => ?_⟩
      cases hq
      rw [Paper.placeOrder, if_neg (by simpa [paperPayload] using hpos)] at hf
      cases hf
    | some fill =>
      obtain ⟨hpos, hid, hof⟩ := placeOrder_fillOf hf
      exact Or.inr ⟨p, fill, rfl, hpos, hid, hof, by simp only [executeEnvelope, hp, hf]⟩

/-- The id of an accepted envelope is placed, whether its write takes effect or not. -/
theorem answer_command_used {s : Book} {raw : String} {x : Answers} {p : Live.ExecutionPayload d}
    (hp : Live.decodeEnvelope d hmac raw "" = .ok p) (hpos : 0 < d.val p.amount) :
    orderIDAt x.now ∈ (answer d hmac accessToken s (.command raw x)).used := by
  rw [answer]
  rcases @executeEnvelope_cases d hmac s raw x with ⟨e, -, hno⟩ | ⟨q, fill, -, -, hid, -, he⟩
  · exact absurd hpos (hno p hp)
  · rw [he, publishSignal_used, logFill_used, hid]
    exact List.mem_cons_self

/-- A call does what it answers exactly when its write, if it has one, is recorded. -/
theorem acknowledged_call (s : Book) (raw : String) (x : Answers) : Acknowledged d hmac s raw x ↔ Recorded d hmac s raw x := by
  rcases @executeEnvelope_cases d hmac s raw x with ⟨e, he, hno⟩ | ⟨p, fill, hp, hpos, hid, hof, he⟩
  · refine iff_of_true ⟨?_, ?_, ?_⟩ fun p hp hpos => absurd hpos (hno p hp)
    · rw [he]
      intro h
      cases h
    · rw [he]
      simp
    · rw [he]
      exact Or.inl rfl
  · have hkept : x.recorded = false → (executeEnvelope d hmac s raw x).2.orders = s.orders := by
      intro hlost
      rw [he, publishSignal_orders, logFill_orders, hlost]
      rfl
    have hinserted : x.recorded = true → (executeEnvelope d hmac s raw x).2.orders = s.orders.insert fill := by
      intro hrec
      rw [he, publishSignal_orders, logFill_orders, hrec]
      rfl
    constructor
    · intro h q hq _
      obtain ⟨-, fill', -, -, hfresh, hnew, hins⟩ := h.filled (by rw [he])
      have hrec : x.recorded = true := by
        by_contra hlost
        rw [hkept (by simpa using hlost)] at hins
        exact insert_ne hnew hins.symm
      refine ⟨hrec, ?_⟩
      have hsame : fill'.orderID = fill.orderID := insert_id hnew ((hinserted hrec).symm.trans hins)
      rw [← hid, ← hsame]
      exact hfresh
    · intro h
      obtain ⟨hrec, hfresh⟩ := h p hp hpos
      rw [← hid] at hfresh
      have hnew := s.get?_unused hfresh
      refine ⟨fun _ => ⟨p, fill, hp, hof, hfresh, hnew, hinserted hrec⟩, ?_, ?_⟩
      · rw [hinserted hrec, he]
        exact iff_of_false (fun hne => hne rfl) (insert_ne hnew)
      · rw [hinserted hrec, he]
        rcases publishSignal_signals (logFill s fill x.recorded) x fill (d.val p.odds) (d.val p.trueProb) (d.val p.implied) with
          hquiet | ⟨sig, hsig, hfor⟩
        · exact Or.inl (by rw [hquiet, logFill_signals])
        · exact Or.inr ⟨sig, fill, by rw [hsig, logFill_signals], hfor, by simp [Paper.Orders.insert]⟩

/-! ## Runs -/

/-- A request makes its call and answers what the call returned, or it changes nothing. -/
theorem httpExecute_cases (s : Book) (r : Request) (x : Answers) :
    (∃ raw, callOf accessToken (.http r x) = some (raw, x) ∧
      (httpExecute d hmac accessToken s r x).2 = (executeEnvelope d hmac s raw x).2 ∧
      ((httpExecute d hmac accessToken s r x).1 = .filled ↔ (executeEnvelope d hmac s raw x).1 = .ok ())) ∨
    (callOf accessToken (.http r x) = none ∧ (httpExecute d hmac accessToken s r x).2 = s ∧
      (httpExecute d hmac accessToken s r x).1 ≠ .filled) := by
  unfold httpExecute callOf
  by_cases hpost : r.method = "POST"
  · cases htoken : admitted accessToken r with
    | false => simp [hpost, htoken]
    | true =>
      cases hbody : r.body with
      | none => simp [hpost, htoken, hbody]
      | some raw =>
        left
        refine ⟨raw, by simp [hpost, htoken, hbody], ?_⟩
        simp only [hpost, Bool.true_eq_false, if_false]
        rcases he : executeEnvelope d hmac s raw x with ⟨e | u, s'⟩
        · exact ⟨rfl, by simp⟩
        · exact ⟨rfl, by simp⟩
  · simp [hpost]

/-- In every run the calls do what they answer exactly when the write of every accepted
    envelope takes effect under an id that was not placed before. -/
theorem acknowledged_iff (d : Doubles) (hmac : Hmac) (accessToken : String) (s : Book) (es : List PaperEvent) :
    Meets (answer d hmac accessToken) (fun s e => ∀ c ∈ callOf accessToken e, Acknowledged d hmac s c.1 c.2) s es ↔
      Meets (answer d hmac accessToken) (fun s e => ∀ c ∈ callOf accessToken e, Recorded d hmac s c.1 c.2) s es := by
  refine meets_congr (fun _ => True) (fun s e _ => ?_) (fun _ _ _ _ => trivial) trivial
  constructor
  · intro h c hc
    exact (acknowledged_call s c.1 c.2).mp (h c hc)
  · intro h c hc
    exact (acknowledged_call s c.1 c.2).mpr (h c hc)

/-! ## One bet -/

/-- The envelope of a bet of 25 on home at 5, unsigned. -/
def bet : String := "eyJtYXRjaF9pZCI6Im0xIiwibWFya2V0X2lkIjoiMVgyIiwic2lkZSI6ImhvbWUiLCJvZGRzIjo1LCJhbW91bnQiOjI1fQ."

/-- What an envelope says, by running the decoder on it. -/
theorem decodes {raw m : String} (h : (match Live.decodeEnvelope decimals (fun _ _ => []) raw "" with
    | .ok p => p.matchID == m && decide (0 < decimals.val p.amount)
    | .error _ => false) = true) :
    ∃ p, Live.decodeEnvelope decimals (fun _ _ => []) raw "" = .ok p ∧ p.matchID = m ∧ 0 < decimals.val p.amount := by
  cases hp : Live.decodeEnvelope decimals (fun _ _ => []) raw "" with
  | ok p =>
    rw [hp, Bool.and_eq_true, beq_iff_eq, decide_eq_true_eq] at h
    exact ⟨p, rfl, h⟩
  | error e =>
    rw [hp] at h
    cases h

theorem bet_decodes : ∃ p, Live.decodeEnvelope decimals (fun _ _ => []) bet "" = .ok p ∧ p.matchID = "m1" ∧
    0 < decimals.val p.amount := decodes (by decide +kernel)

/-- The write fails; the call answers that the order is filled, and signals it. -/
theorem a_lost_write_is_acknowledged :
    ¬ Meets (answer decimals (fun _ _ => []) "") (fun s e => ∀ c ∈ callOf "" e, Acknowledged decimals (fun _ _ => []) s c.1 c.2)
      Book.empty [.command bet ⟨1714571280000000000, false, none, true⟩] := by
  intro h
  obtain ⟨hcall, -⟩ := h
  obtain ⟨p, hp, -, hpos⟩ := bet_decodes
  have hrecorded := (acknowledged_call _ _ _).mp (hcall _ rfl) p hp hpos
  cases hrecorded.1

/-- Two bets at one clock reading are one order. -/
theorem one_reading_is_one_order :
    ¬ Meets (answer decimals (fun _ _ => []) "") (fun s e => ∀ c ∈ callOf "" e, Acknowledged decimals (fun _ _ => []) s c.1 c.2)
      Book.empty (List.replicate 2 (.command bet ⟨1714571280000000000, true, none, true⟩)) := by
  intro h
  obtain ⟨-, hcall, -⟩ := h
  obtain ⟨p, hp, -, hpos⟩ := bet_decodes
  obtain ⟨-, hfresh⟩ := (acknowledged_call _ _ _).mp (hcall _ rfl) p hp hpos
  exact hfresh (answer_command_used hp hpos)

end CasuyaLive.System
