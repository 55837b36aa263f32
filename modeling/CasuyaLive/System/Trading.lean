/-
  CasuyaLive.System.Trading — placing orders with the bookmaker (execution-engine-go,
  internal/broker/client.go: `PlaceOrder`, `authHandshake`, `placeOrder`; mock-vendor,
  server.js: `tradeServer`).

  Calls run side by side, each on a connection of its own. A message is under way until the
  server handles it or it is lost; a call gives up when its connection breaks or the fill is
  late, and what it has sent may still arrive. The bookmaker settles in between. `Stage` lists
  where a trade can be; every move leads from stage to stage. Nothing is assumed of the digest.

  `trades_accounted`: with one secret on both sides, over every interleaving, a call places one
  order at most, on its own terms; a fill is that of the call's own order, and no two share an
  id; an order without a fill is one its call still waits for or gave up on.
  `trade_goes_through`: from every such state a call that loses no message is filled.
  `strangers_place_nothing`: where the two sign differently no order is booked or filled.

  Not in the source: `placed`, the booked orders with their calls.
-/

import CasuyaLive.Vendor.Trade
import CasuyaLive.System.Envelopes
import CasuyaLive.System.Settlements

namespace CasuyaLive.System

open CasuyaLive.Lib CasuyaLive.Execution CasuyaLive.Execution.Live CasuyaLive.Vendor
open Json (Wire object text)

/-! ## One message and its answer -/

section

variable {d : Doubles} (fe : FloatEncoder d) (hmac : List UInt8 → List UInt8 → List UInt8) (str : Json.Parsed → String)
  (cfg : TradeConfig) (env : TradeEnv) (v : Server)

theorem member_obj (fields : List (String × Json.Parsed)) (key : String) :
    member (.obj (fields.map fun f => (Json.ofString f.1, f.2))) key = (fields.reverse.find? fun f => f.1 = key).map (·.2) := by
  simp only [member, Json.get?, ← List.map_reverse, List.find?_map, Option.map_map, Function.comp_def, Json.ofString_inj]

theorem parse_marshal (x : Json Json.Lit String) : Json.parse (Text.runes (marshal x)) = some (Json.go.value x) := by
  rw [marshal, Text.runes_utf8, Json.Quoting.parse_text]

def authParsed (ts : Int) : List (String × Json.Parsed) :=
  [("key", .str (Json.ofString cfg.bookmakerKey)), ("ts", .num (.ofInt ts))]

def orderParsed (o : Order d) (ts : Int) : List (String × Json.Parsed) :=
  [("client_ts", .num (.ofInt ts)), ("market", .str (Json.ofString o.marketID)), ("odds", .num (fe.lit o.odds)),
    ("side", .str (Json.ofString o.side)), ("stake", .num (fe.lit o.stake)), ("type", .str (Json.ofString "place_order"))]

theorem parse_authBody (ts : Int) : Json.parse (Text.runes (authBody cfg ts)) =
    some (.obj ((authParsed cfg ts).map fun f => (Json.ofString f.1, f.2))) := parse_marshal _

theorem parse_orderBody (o : Order d) (ts : Int) : Json.parse (Text.runes (orderBody fe o ts)) =
    some (.obj ((orderParsed fe o ts).map fun f => (Json.ofString f.1, f.2))) := parse_marshal _

/-- The terms of an order, as the bookmaker books them. -/
def termsOf (o : Order d) : PlacedOrder := ⟨o.marketID, o.side, d.val o.odds, d.val o.stake⟩

theorem readOrder_orderBody (o : Order d) (ts : Int) :
    readOrder d (.obj ((orderParsed fe o ts).map fun f => (Json.ofString f.1, f.2))) = some (termsOf o) := by
  have hread : ∀ key, member (.obj ((orderParsed fe o ts).map fun f => (Json.ofString f.1, f.2))) key =
      ((orderParsed fe o ts).reverse.find? fun f => f.1 = key).map (·.2) := member_obj _
  simp only [readOrder, hread]
  simp [orderParsed, asText, asNumber, fe.nearest_lit, Json.toText_ofString, termsOf]

theorem verifySig_sign (body : List UInt8) : verifySig hmac (some (text (sign hmac body cfg.authSecret))) body env.authSecret =
    some (hmac (Text.utf8 cfg.authSecret.toList) body == hmac (Text.utf8 env.authSecret.toList) body) := by
  simp only [verifySig, text, Json.toText_ofString, sign, bufferFrom_url]

def fillReply (o : Order d) (id : String) (now : Int) : Wire :=
  object [("status", text "filled"), ("order_id", text id), ("market", text o.marketID), ("side", text o.side),
    ("odds", .num (d.val o.odds)), ("stake", .num (d.val o.stake)), ("fill_ts", .num now)]

def ackReply (body : List UInt8) : Wire :=
  object [("status", text "ok"), ("body", text (String.ofList (Base64.std.encode body))),
    ("sig", text (sign hmac body env.authSecret))]

/-- Whether the two sides sign a text alike. -/
def agree (body : List UInt8) : Bool :=
  hmac (Text.utf8 cfg.authSecret.toList) body == hmac (Text.utf8 env.authSecret.toList) body

theorem signedFrame_get? (field key : String) (body : List UInt8) : (signedFrame hmac cfg field body).get? (Json.ofString key) =
    if key = "sig" then some (text (sign hmac body cfg.authSecret))
    else if key = field then some (text (String.ofList (Base64.std.encode body)))
    else none := by
  rw [signedFrame, Json.get?_object]
  by_cases hs : key = "sig"
  · simp [hs]
  · by_cases hf : key = field
    · subst hf
      have hne : ¬"sig" = key := fun e => hs e.symm
      simp [hs, hne]
    · simp [hs, hf, Ne.symm hs, Ne.symm hf]

theorem signedFrame_ne (field : String) (body : List UInt8) : signedFrame hmac cfg field body ≠ .null := by
  simp [signedFrame, object]

/-- The bytes of the acknowledgement. -/
def ackBytes (d : Doubles) (ts : Int) : List UInt8 :=
  Text.utf8 ("ack " ++ str (ackOf d (.obj ((authParsed cfg ts).map fun f => (Json.ofString f.1, f.2))))).toList

theorem onMessage_auth (now ts : Int) : onMessage d hmac str env v now (some (signedFrame hmac cfg "auth" (authBody cfg ts))) =
    .replied v (if agree hmac cfg env (authBody cfg ts) then ackReply hmac env (ackBytes str cfg d ts)
      else refusal "error" "bad auth sig") := by
  have hverify := verifySig_sign hmac cfg env (authBody cfg ts)
  rw [onMessage]
  · simp only [signedFrame_get?, String.reduceEq, if_true, if_false]
    simp only [text, present, Json.toText_ofString, bufferFrom_std, onAuth, parse_authBody, Option.getD_some] at hverify ⊢
    rw [hverify, ← agree]
    cases agree hmac cfg env (authBody cfg ts) <;> rfl
  · exact signedFrame_ne hmac cfg "auth" _

theorem onMessage_order (now : Int) (o : Order d) (ts : Int) :
    onMessage d hmac str env v now (some (signedFrame hmac cfg "body" (orderBody fe o ts))) =
      if agree hmac cfg env (orderBody fe o ts) then
        .replied (fill v o.marketID o.side (d.val o.odds) (d.val o.stake)) (fillReply o (idOf v.orderSeq) now)
      else .replied v (refusal "rejected" "bad order sig") := by
  have hverify := verifySig_sign hmac cfg env (orderBody fe o ts)
  rw [onMessage]
  · simp only [signedFrame_get?, String.reduceEq, if_true, if_false]
    simp only [text, present, Json.toText_ofString, bufferFrom_std, onOrder, parse_orderBody, readOrder_orderBody] at hverify ⊢
    rw [hverify, ← agree]
    cases agree hmac cfg env (orderBody fe o ts) <;> rfl
  · exact signedFrame_ne hmac cfg "body" _

theorem verifyHMAC_sign (body : List UInt8) :
    verifyHMAC hmac body (sign hmac body env.authSecret) cfg.authSecret = agree hmac cfg env body := by
  rw [verifyHMAC, sign, decodeString_encodeRaw, agree, Bool.eq_iff_iff, beq_iff_eq, beq_iff_eq, Option.some.injEq]
  exact eq_comm

theorem checkAck_ackReply (body : List UInt8) : checkAck hmac cfg (ackReply hmac env body) =
    if agree hmac cfg env body then .ok () else .error .ackSignature := by
  have hset := setAck_spec
  simp only [forall_and] at hset
  obtain ⟨h1, h2, h3⟩ := hset
  simp only [checkAck, ackReply, structOr_object, text, List.foldlM_cons, List.foldlM_nil, h1, h2, h3, textOr,
    Json.toText_ofString, Option.map_some, Option.bind_eq_bind, Option.bind_some, Option.pure_def, ne_eq, not_true_eq_false,
    if_false, stdDecodeString_encode, verifyHMAC_sign]

/-- A refusal is no acknowledgement and no fill. -/
theorem checkAck_refusal (status : String) (h : status ≠ "ok") (body : String) :
    checkAck hmac cfg (refusal status body) = .error .authRejected := by
  have hset := setAck_spec
  simp only [forall_and] at hset
  obtain ⟨h1, h2, -⟩ := hset
  simp only [checkAck, refusal, structOr_object, text, List.foldlM_cons, List.foldlM_nil, h1, h2, textOr, Json.toText_ofString,
    Option.map_some, Option.bind_eq_bind, Option.bind_some, Option.pure_def, ne_eq, h, not_false_eq_true, if_true]

theorem readFill_fillReply (o : Order d) (n : Nat) (now ts : Int) : readFill o ts (fillReply o (idOf n) now) =
    .ok ⟨idOf n, o.marketID, o.side, d.val o.odds, d.val o.stake, "", ts⟩ := by
  have hset := setResult_spec
  simp only [forall_and] at hset
  obtain ⟨h1, h2, h3, h4, h5, h6, h7⟩ := hset
  have hid : idOf n ≠ "" := by simp [idOf]
  simp only [readFill, fillReply, structOr_object, text, List.foldlM_cons, List.foldlM_nil, h1, h2, h3, h4, h5, h6, h7, textOr,
    floatOr, Json.toText_ofString, Option.map_some, Option.bind_eq_bind, Option.bind_some]
  simp [hid]

end

/-! ## Trades in flight -/

inductive Phase where
  | authenticating
  | ordering
  | filled (f : Fill)
  | failed (e : TradeError)
  deriving DecidableEq

/-- One call of `PlaceOrder`, its connection with what is under way on it. -/
structure Trade (d : Doubles) where
  order : Order d
  phase : Phase
  toServer : List Wire
  toClient : List Wire

structure World (d : Doubles) where
  server : Server
  up : Bool
  trades : List (Trade d)
  /-- The orders booked, each with the call it came from. -/
  placed : List (Nat × SettlementOrder)

def World.start (d : Doubles) : World d := ⟨Vendor.start, true, [], []⟩

inductive Move (d : Doubles) where
  /-- A call, when its connection can be opened. -/
  | call (o : Order d) (ts : Int) (dials : Bool)
  /-- The server handles the next message of a connection. -/
  | deliver (i : Nat) (now : Int)
  /-- The call reads its next answer. -/
  | receive (i : Nat) (now : Int)
  /-- The call gives up reading: the connection broke, or the fill is late. -/
  | giveUp (i : Nat)
  /-- What is under way to the server is lost. -/
  | lose (i : Nat)
  | fulltime (score : Live.Score) (now : JsDate) (ready : Bool)

section

variable {d : Doubles} (fe : FloatEncoder d) (hmac : List UInt8 → List UInt8 → List UInt8) (str : Json.Parsed → String)
  (cfg : TradeConfig) (env : TradeEnv) (boot : JsDate)

def openTrade (o : Order d) (ts : Int) (dials : Bool) : Trade d :=
  if d.val o.stake ≤ 0 then ⟨o, .failed .stake, [], []⟩
  else if dials then ⟨o, .authenticating, [signedFrame hmac cfg "auth" (authBody cfg ts)], []⟩
  else ⟨o, .failed .dial, [], []⟩

/-- The call goes on with the first answer. -/
def Trade.read (t : Trade d) (now : Int) : Trade d :=
  match t.toClient with
  | [] => t
  | resp :: rest =>
    match t.phase with
    | .authenticating =>
      match checkAck hmac cfg resp with
      | .ok () =>
        { t with
          phase := .ordering
          toServer := t.toServer ++ [signedFrame hmac cfg "body" (orderBody fe t.order now)]
          toClient := rest }
      | .error e => { t with phase := .failed e, toClient := rest }
    | .ordering =>
      match readFill t.order now resp with
      | .ok f => { t with phase := .filled f, toClient := rest }
      | .error e => { t with phase := .failed e, toClient := rest }
    | .filled _ => t
    | .failed _ => t

def Trade.giveUp (t : Trade d) : Trade d :=
  match t.phase with
  | .authenticating => { t with phase := .failed .ackRead }
  | .ordering => { t with phase := .failed .responseRead }
  | .filled _ => t
  | .failed _ => t

/-- The orders a handler added to the book. -/
def booked (v v' : Server) : List SettlementOrder :=
  if v'.orderSeq = v.orderSeq then [] else ((v'.book.get? (idOf v.orderSeq)).toList)

def World.serve (w : World d) (i : Nat) (t : Trade d) (now : Int) : World d :=
  match t.toServer with
  | [] => w
  | msg :: rest =>
    match onMessage d hmac str env w.server now (some msg) with
    | .replied v reply =>
      { w with server := v, trades := w.trades.set i { t with toServer := rest, toClient := t.toClient ++ [reply] }
               placed := w.placed ++ (booked w.server v).map fun o => (i, o) }
    | .raised => { w with up := false }
    | .foreign => { w with trades := w.trades.set i { t with toServer := rest } }

/-- A trade of the world takes a step, if there is such a trade. -/
def World.on (w : World d) (i : Nat) (f : Trade d → World d) : World d :=
  match w.trades[i]? with
  | none => w
  | some t => f t

def World.step (w : World d) : Move d → World d
  | .call o ts dials => { w with trades := w.trades ++ [openTrade hmac cfg o ts dials] }
  | .deliver i now => if w.up then w.on i fun t => w.serve hmac str env i t now else w
  | .receive i now => w.on i fun t => { w with trades := w.trades.set i (t.read fe hmac cfg now) }
  | .giveUp i => w.on i fun t => { w with trades := w.trades.set i t.giveUp }
  | .lose i => w.on i fun t => { w with trades := w.trades.set i { t with toServer := [] } }
  | .fulltime score now ready =>
    if w.up then { w with server := publishSettlement w.server (cycleAt boot now) score ready } else w

/-! ## The stages of a trade -/

/-- An order as the bookmaker books it. -/
def bookedOrder (id : String) (o : Order d) : SettlementOrder := ⟨id, o.marketID, o.side, d.val o.odds, d.val o.stake⟩

/-- A fill as the call returns it. -/
def fillOf (id : String) (o : Order d) (now : Int) : Fill := ⟨id, o.marketID, o.side, d.val o.odds, d.val o.stake, "", now⟩

/-- Where a trade can be: the orders it has in the book's history, and the trade. -/
inductive Stage : List SettlementOrder → Trade d → Prop
  | refused (o e) (h : e = .stake ∨ e = .dial) : Stage [] ⟨o, .failed e, [], []⟩
  | auth (o ts) (h : 0 < d.val o.stake) : Stage [] ⟨o, .authenticating, [signedFrame hmac cfg "auth" (authBody cfg ts)], []⟩
  | authLost (o) (h : 0 < d.val o.stake) : Stage [] ⟨o, .authenticating, [], []⟩
  | acked (o body) (h : 0 < d.val o.stake) : Stage [] ⟨o, .authenticating, [], [ackReply hmac env body]⟩
  | order (o ts) (h : 0 < d.val o.stake) : Stage [] ⟨o, .ordering, [signedFrame hmac cfg "body" (orderBody fe o ts)], []⟩
  | orderLost (o) (h : 0 < d.val o.stake) : Stage [] ⟨o, .ordering, [], []⟩
  | answered (o n now) (h : 0 < d.val o.stake) : Stage [bookedOrder (idOf n) o] ⟨o, .ordering, [], [fillReply o (idOf n) now]⟩
  | filled (o n now) (h : 0 < d.val o.stake) : Stage [bookedOrder (idOf n) o] ⟨o, .filled (fillOf (idOf n) o now), [], []⟩
  | authLeft (o ts answers) : Stage [] ⟨o, .failed .ackRead, [signedFrame hmac cfg "auth" (authBody cfg ts)], answers⟩
  | authGone (o answers) : Stage [] ⟨o, .failed .ackRead, [], answers⟩
  | orderLeft (o ts answers) (h : 0 < d.val o.stake) :
      Stage [] ⟨o, .failed .responseRead, [signedFrame hmac cfg "body" (orderBody fe o ts)], answers⟩
  | orderGone (o answers) : Stage [] ⟨o, .failed .responseRead, [], answers⟩
  | unseen (o n answers) (h : 0 < d.val o.stake) : Stage [bookedOrder (idOf n) o] ⟨o, .failed .responseRead, [], answers⟩

variable {fe hmac str cfg env boot}

theorem openTrade_stage (o : Order d) (ts : Int) (dials : Bool) : Stage fe hmac cfg env [] (openTrade hmac cfg o ts dials) := by
  unfold openTrade
  split
  · exact .refused o _ (Or.inl rfl)
  · rename_i h
    split
    · exact .auth o ts (not_le.mp h)
    · exact .refused o _ (Or.inr rfl)

theorem giveUp_stage {mine : List SettlementOrder} {t : Trade d} (h : Stage fe hmac cfg env mine t) :
    Stage fe hmac cfg env mine t.giveUp := by
  cases h with
  | refused o e h => exact .refused o e h
  | auth o ts h => exact .authLeft o ts []
  | authLost o h => exact .authGone o []
  | acked o body h => exact .authGone o _
  | order o ts h => exact .orderLeft o ts [] h
  | orderLost o h => exact .orderGone o []
  | answered o n now h => exact .unseen o n _ h
  | filled o n now h => exact .filled o n now h
  | authLeft o ts answers => exact .authLeft o ts answers
  | authGone o answers => exact .authGone o answers
  | orderLeft o ts answers h => exact .orderLeft o ts answers h
  | orderGone o answers => exact .orderGone o answers
  | unseen o n answers h => exact .unseen o n answers h

theorem lose_stage {mine : List SettlementOrder} {t : Trade d} (h : Stage fe hmac cfg env mine t) :
    Stage fe hmac cfg env mine { t with toServer := [] } := by
  cases h with
  | refused o e h => exact .refused o e h
  | auth o ts h => exact .authLost o h
  | authLost o h => exact .authLost o h
  | acked o body h => exact .acked o body h
  | order o ts h => exact .orderLost o h
  | orderLost o h => exact .orderLost o h
  | answered o n now h => exact .answered o n now h
  | filled o n now h => exact .filled o n now h
  | authLeft o ts answers => exact .authGone o answers
  | authGone o answers => exact .authGone o answers
  | orderLeft o ts answers h => exact .orderGone o answers
  | orderGone o answers => exact .orderGone o answers
  | unseen o n answers h => exact .unseen o n answers h

/-- With one secret both sides sign alike. -/
theorem agree_of_eq (h : cfg.authSecret = env.authSecret) (body : List UInt8) : agree hmac cfg env body = true := by
  rw [agree, h, beq_self_eq_true]

theorem read_stage (hsecret : cfg.authSecret = env.authSecret) {mine : List SettlementOrder} {t : Trade d}
    (h : Stage fe hmac cfg env mine t) (now : Int) : Stage fe hmac cfg env mine (t.read fe hmac cfg now) := by
  cases h with
  | refused o e h => exact .refused o e h
  | auth o ts h => exact .auth o ts h
  | authLost o h => exact .authLost o h
  | acked o body h =>
    simp only [Trade.read, checkAck_ackReply, agree_of_eq hsecret, if_true, List.nil_append]
    exact .order o now h
  | order o ts h => exact .order o ts h
  | orderLost o h => exact .orderLost o h
  | answered o n ts h =>
    simp only [Trade.read, readFill_fillReply]
    exact .filled o n now h
  | filled o n ts h => exact .filled o n ts h
  | authLeft o ts answers => cases answers <;> exact .authLeft o ts _
  | authGone o answers => cases answers <;> exact .authGone o _
  | orderLeft o ts answers h => cases answers <;> exact .orderLeft o ts _ h
  | orderGone o answers => cases answers <;> exact .orderGone o _
  | unseen o n answers h => cases answers <;> exact .unseen o n _ h

variable (str) in
/-- The bookmaker takes the message of a trade: an order is booked under the next id, anything
    else changes nothing. -/
theorem message_stage (hsecret : cfg.authSecret = env.authSecret) {mine : List SettlementOrder} {t : Trade d} {msg : Wire}
    {rest : List Wire} (h : Stage fe hmac cfg env mine t) (hmsg : t.toServer = msg :: rest) (v : Server) (now : Int) :
    mine = [] ∧ ∃ reply,
      (onMessage d hmac str env v now (some msg) = .replied v reply ∧
        Stage fe hmac cfg env [] { t with toServer := rest, toClient := t.toClient ++ [reply] }) ∨
      (onMessage d hmac str env v now (some msg) =
          .replied (fill v t.order.marketID t.order.side (d.val t.order.odds) (d.val t.order.stake)) reply ∧
        Stage fe hmac cfg env [bookedOrder (idOf v.orderSeq) t.order]
          { t with toServer := rest, toClient := t.toClient ++ [reply] }) := by
  have hauth : ∀ ts, onMessage d hmac str env v now (some (signedFrame hmac cfg "auth" (authBody cfg ts))) =
      .replied v (ackReply hmac env (ackBytes str cfg d ts)) := by
    intro ts
    rw [onMessage_auth, agree_of_eq hsecret, if_pos rfl]
  have horder : ∀ o ts, onMessage d hmac str env v now (some (signedFrame hmac cfg "body" (orderBody fe o ts))) =
      .replied (fill v o.marketID o.side (d.val o.odds) (d.val o.stake)) (fillReply o (idOf v.orderSeq) now) := by
    intro o ts
    rw [onMessage_order, agree_of_eq hsecret, if_pos rfl]
  cases h with
  | refused o e h => cases hmsg
  | auth o ts h =>
    cases hmsg
    exact ⟨rfl, _, Or.inl ⟨hauth ts, .acked o _ h⟩⟩
  | authLost o h => cases hmsg
  | acked o body h => cases hmsg
  | order o ts h =>
    cases hmsg
    exact ⟨rfl, _, Or.inr ⟨horder o ts, .answered o v.orderSeq now h⟩⟩
  | orderLost o h => cases hmsg
  | answered o n now h => cases hmsg
  | filled o n now h => cases hmsg
  | authLeft o ts answers =>
    cases hmsg
    exact ⟨rfl, _, Or.inl ⟨hauth ts, .authGone o _⟩⟩
  | authGone o answers => cases hmsg
  | orderLeft o ts answers h =>
    cases hmsg
    exact ⟨rfl, _, Or.inr ⟨horder o ts, .unseen o v.orderSeq _ h⟩⟩
  | orderGone o answers => cases hmsg
  | unseen o n answers h => cases hmsg

/-! ## Runs -/

/-- The orders that a call placed. -/
def World.mine (w : World d) (i : Nat) : List SettlementOrder := (w.placed.filter (·.1 = i)).map (·.2)

variable (fe hmac cfg env) in
/-- In every state of a run. -/
structure Sound (w : World d) : Prop where
  up : w.up = true
  booked : Booked w.server
  ids : w.placed.map (·.2.orderID) = (List.range w.server.orderSeq).map idOf
  stages : ∀ i t, w.trades[i]? = some t → Stage fe hmac cfg env (w.mine i) t
  known : ∀ x ∈ w.placed, x.1 < w.trades.length
  book : ∀ o ∈ orders w.server, o ∈ w.placed.map (·.2)

theorem start_sound : Sound fe hmac cfg env (World.start d) :=
  ⟨rfl, start_booked, rfl, nofun, nofun, nofun⟩

theorem lt_of_trade {w : World d} {i : Nat} {t : Trade d} (h : w.trades[i]? = some t) : i < w.trades.length :=
  (List.getElem?_eq_some_iff.mp h).1

/-- A trade moves on by itself. -/
theorem set_sound {w : World d} (h : Sound fe hmac cfg env w) {i : Nat} {t : Trade d} (ht : Stage fe hmac cfg env (w.mine i) t) :
    Sound fe hmac cfg env { w with trades := w.trades.set i t } := by
  refine ⟨h.up, h.booked, h.ids, ?_, ?_, h.book⟩
  · intro j u hu
    rw [List.getElem?_set] at hu
    split at hu
    · rename_i hij
      split at hu
      · cases hu
        exact hij ▸ ht
      · cases hu
    · exact h.stages j u hu
  · intro x hx
    rw [List.length_set]
    exact h.known x hx

theorem mine_new {w : World d} (h : Sound fe hmac cfg env w) : w.mine w.trades.length = [] := by
  rw [World.mine, List.map_eq_nil_iff, List.filter_eq_nil_iff]
  intro x hx
  have hlt := h.known x hx
  simp only [decide_eq_true_eq]
  omega

theorem call_sound {w : World d} (h : Sound fe hmac cfg env w) (o : Order d) (ts : Int) (dials : Bool) :
    Sound fe hmac cfg env { w with trades := w.trades ++ [openTrade hmac cfg o ts dials] } := by
  refine ⟨h.up, h.booked, h.ids, ?_, ?_, h.book⟩
  · intro j u hu
    rw [List.getElem?_append] at hu
    split at hu
    · exact h.stages j u hu
    · rename_i hj
      have hlt := (List.getElem?_eq_some_iff.mp hu).1
      have hlast : j = w.trades.length := by
        simp only [List.length_singleton] at hlt
        omega
      subst hlast
      rw [Nat.sub_self] at hu
      cases hu
      show Stage fe hmac cfg env (w.mine _) _
      rw [mine_new h]
      exact openTrade_stage o ts dials
  · intro x hx
    have hlt := h.known x hx
    rw [List.length_append]
    omega

theorem mine_concat (w : World d) (i k : Nat) (o : SettlementOrder) :
    World.mine { w with placed := w.placed ++ [(i, o)] } k = w.mine k ++ if i = k then [o] else [] := by
  by_cases hk : i = k <;> simp [World.mine, List.filter_append, hk]

theorem mem_orders_fill {v : Server} {o : Order d} {x : SettlementOrder}
    (hx : x ∈ orders (fill v o.marketID o.side (d.val o.odds) (d.val o.stake))) :
    x ∈ orders v ∨ x = bookedOrder (idOf v.orderSeq) o := by
  obtain ⟨⟨id, x⟩, hentry, rfl⟩ := List.mem_map.mp hx
  have hget := (Table.mem_iff _ _ _).mp hentry
  simp only [fill, Table.get?_set] at hget
  split at hget
  · cases hget
    exact Or.inr rfl
  · exact Or.inl (List.mem_map.mpr ⟨_, (Table.mem_iff _ _ _).mpr hget, rfl⟩)

/-- An order is booked under the next id, for a call that had none. -/
theorem book_sound {w : World d} (h : Sound fe hmac cfg env w) {i : Nat} (hi : i < w.trades.length) (hmine : w.mine i = [])
    (o : Order d) {t : Trade d} (ht : Stage fe hmac cfg env [bookedOrder (idOf w.server.orderSeq) o] t) :
    Sound fe hmac cfg env
      { w with server := fill w.server o.marketID o.side (d.val o.odds) (d.val o.stake), trades := w.trades.set i t
               placed := w.placed ++ [(i, bookedOrder (idOf w.server.orderSeq) o)] } := by
  refine ⟨h.up, fill_booked h.booked _ _ _ _, ?_, ?_, ?_, ?_⟩
  · show (w.placed ++ [_]).map _ = (List.range (w.server.orderSeq + 1)).map idOf
    rw [List.map_append, h.ids, List.range_succ, List.map_append]
    rfl
  · intro j u hu
    rw [List.getElem?_set] at hu
    show Stage fe hmac cfg env (World.mine { w with placed := _ } j) u
    rw [mine_concat]
    split at hu
    · rename_i hij
      subst hij
      cases hu
      rw [hmine, if_pos rfl]
      exact ht
    · rename_i hij
      rw [if_neg hij, List.append_nil]
      exact h.stages j u hu
  · intro x hx
    rw [List.length_set]
    rcases List.mem_append.mp hx with hx | hx
    · exact h.known x hx
    · rw [List.mem_singleton.mp hx]
      exact hi
  · intro x hx
    rw [List.map_append, List.mem_append]
    rcases mem_orders_fill hx with hx | rfl
    · exact Or.inl (h.book x hx)
    · exact Or.inr (List.mem_singleton_self _)

theorem booked_fill (v : Server) (o : Order d) :
    booked v (fill v o.marketID o.side (d.val o.odds) (d.val o.stake)) = [bookedOrder (idOf v.orderSeq) o] := by
  have hseq : (fill v o.marketID o.side (d.val o.odds) (d.val o.stake)).orderSeq ≠ v.orderSeq := Nat.succ_ne_self _
  rw [booked, if_neg hseq]
  simp [fill, bookedOrder]

theorem serve_sound (hsecret : cfg.authSecret = env.authSecret) {w : World d} (h : Sound fe hmac cfg env w) {i : Nat}
    {t : Trade d} (ht : w.trades[i]? = some t) (now : Int) : Sound fe hmac cfg env (w.serve hmac str env i t now) := by
  have hstage := h.stages i t ht
  unfold World.serve
  cases hmsg : t.toServer with
  | nil => exact h
  | cons msg rest =>
    obtain ⟨hmine, reply, hanswer⟩ := message_stage str hsecret hstage hmsg w.server now
    rcases hanswer with ⟨hreply, hnext⟩ | ⟨hreply, hnext⟩
    · have hnone : booked w.server w.server = [] := if_pos rfl
      simp only [hreply, hnone, List.map_nil, List.append_nil]
      exact set_sound h (hmine ▸ hnext)
    · simp only [hreply, booked_fill, List.map_cons, List.map_nil]
      exact book_sound h (lt_of_trade ht) hmine t.order hnext

theorem fulltime_sound {w : World d} (h : Sound fe hmac cfg env w) (score : Live.Score) (now : JsDate) (ready : Bool) :
    Sound fe hmac cfg env { w with server := publishSettlement w.server (cycleAt boot now) score ready } := by
  by_cases hne : orders w.server = []
  · have hsame : publishSettlement w.server (cycleAt boot now) score ready = w.server := by simp [publishSettlement, hne]
    rw [hsame]
    exact h
  · obtain ⟨hkeys, hseq, -⟩ := fulltime_spec h.booked hne boot now score ready
    refine ⟨h.up, fulltime_booked h.booked boot now score ready, ?_, h.stages, h.known, ?_⟩
    · rw [hseq]
      exact h.ids
    · intro o ho
      rw [orders, entries_of_keys hkeys] at ho
      cases ho

theorem on_sound {w : World d} (h : Sound fe hmac cfg env w) {i : Nat} {f : Trade d → World d}
    (hf : ∀ t, w.trades[i]? = some t → Sound fe hmac cfg env (f t)) : Sound fe hmac cfg env (w.on i f) := by
  unfold World.on
  split
  · exact h
  · exact hf _ ‹_›

theorem step_sound (hsecret : cfg.authSecret = env.authSecret) {w : World d} (h : Sound fe hmac cfg env w) (m : Move d) :
    Sound fe hmac cfg env (w.step fe hmac str cfg env boot m) := by
  cases m with
  | call o ts dials => exact call_sound h o ts dials
  | deliver i now =>
    rw [World.step, if_pos h.up]
    exact on_sound h fun t ht => serve_sound hsecret h ht now
  | receive i now => exact on_sound h fun t ht => set_sound h (read_stage hsecret (h.stages i t ht) now)
  | giveUp i => exact on_sound h fun t ht => set_sound h (giveUp_stage (h.stages i t ht))
  | lose i => exact on_sound h fun t ht => set_sound h (lose_stage (h.stages i t ht))
  | fulltime score now ready =>
    rw [World.step, if_pos h.up]
    exact fulltime_sound h score now ready

/-! ## What the two sides know of each other -/

/-- The books of the two sides. -/
structure Accounted (w : World d) : Prop where
  /-- No call brings the bookmaker down. -/
  alive : w.up = true
  /-- The bookmaker numbers the orders one by one. -/
  numbered : w.placed.map (·.2.orderID) = (List.range w.server.orderSeq).map idOf
  /-- A call places one order at most. -/
  once : (w.placed.map (·.1)).Nodup
  /-- An order has the terms of its call, which has its fill, still waits for it, or gave up on it. -/
  own : ∀ i o, (i, o) ∈ w.placed → ∃ t, w.trades[i]? = some t ∧ 0 < d.val t.order.stake ∧
    o = bookedOrder o.orderID t.order ∧
    (t.phase = .ordering ∨ t.phase = .failed .responseRead ∨ ∃ now, t.phase = .filled (fillOf o.orderID t.order now))
  /-- A fill is that of the call's own order. -/
  fills : ∀ (i : ℕ) (t : Trade d) (f : Fill), w.trades[i]? = some t → t.phase = .filled f →
    f = fillOf f.orderID t.order f.fillAt ∧ (i, bookedOrder f.orderID t.order) ∈ w.placed
  /-- No two calls get one id. -/
  distinct : ∀ (i j : ℕ) (t u : Trade d) (f g : Fill), w.trades[i]? = some t → w.trades[j]? = some u →
    t.phase = .filled f → u.phase = .filled g → f.orderID = g.orderID → i = j
  /-- No call is refused by the bookmaker. -/
  failures : ∀ (i : ℕ) (t : Trade d) (e : TradeError), w.trades[i]? = some t → t.phase = .failed e →
    e ∈ [TradeError.stake, .dial, .ackRead, .responseRead]
  /-- What is in the book or was settled was placed by a call. -/
  settled : ∀ id ∈ w.server.book.keys ++ carried w.server, id ∈ w.placed.map (·.2.orderID)

theorem stage_length {mine : List SettlementOrder} {t : Trade d} (h : Stage fe hmac cfg env mine t) : mine.length ≤ 1 := by
  cases h <;> simp

theorem stage_own {mine : List SettlementOrder} {t : Trade d} (h : Stage fe hmac cfg env mine t) : ∀ o ∈ mine,
    0 < d.val t.order.stake ∧ o = bookedOrder o.orderID t.order ∧
      (t.phase = .ordering ∨ t.phase = .failed .responseRead ∨ ∃ now, t.phase = .filled (fillOf o.orderID t.order now)) := by
  intro x hx
  cases h with
  | answered o n now h =>
    rw [List.mem_singleton.mp hx]
    exact ⟨h, rfl, Or.inl rfl⟩
  | filled o n now h =>
    rw [List.mem_singleton.mp hx]
    exact ⟨h, rfl, Or.inr (Or.inr ⟨now, rfl⟩)⟩
  | unseen o n answers h =>
    rw [List.mem_singleton.mp hx]
    exact ⟨h, rfl, Or.inr (Or.inl rfl)⟩
  | _ => cases hx

theorem stage_filled {mine : List SettlementOrder} {t : Trade d} (h : Stage fe hmac cfg env mine t) {f : Fill}
    (hf : t.phase = .filled f) :
    f = fillOf f.orderID t.order f.fillAt ∧ bookedOrder f.orderID t.order ∈ mine := by
  cases h with
  | filled o n now h =>
    cases hf
    exact ⟨rfl, List.mem_singleton_self _⟩
  | _ => cases hf

theorem stage_failed {mine : List SettlementOrder} {t : Trade d} (h : Stage fe hmac cfg env mine t) {e : TradeError}
    (hf : t.phase = .failed e) : e ∈ [TradeError.stake, .dial, .ackRead, .responseRead] := by
  cases h with
  | refused o e' h =>
    cases hf
    rcases h with rfl | rfl <;> decide
  | authLeft => cases hf; decide
  | authGone => cases hf; decide
  | orderLeft => cases hf; decide
  | orderGone => cases hf; decide
  | unseen => cases hf; decide
  | _ => cases hf

theorem mem_mine {w : World d} {i : Nat} {o : SettlementOrder} : o ∈ w.mine i ↔ (i, o) ∈ w.placed := by
  simp only [World.mine, List.mem_map, List.mem_filter, decide_eq_true_eq]
  constructor
  · rintro ⟨⟨j, o⟩, ⟨hx, rfl⟩, rfl⟩
    exact hx
  · intro h
    exact ⟨(i, o), ⟨h, rfl⟩, rfl⟩

theorem ids_nodup {w : World d} (h : Sound fe hmac cfg env w) : (w.placed.map (·.2.orderID)).Nodup := by
  rw [h.ids]
  exact List.nodup_range.map fun m n => Vendor.idOf_inj

theorem trade_of_placed {w : World d} (h : Sound fe hmac cfg env w) {x : Nat × SettlementOrder} (hx : x ∈ w.placed) :
    ∃ t, w.trades[x.1]? = some t ∧ Stage fe hmac cfg env (w.mine x.1) t :=
  have ht := List.getElem?_eq_getElem (h.known x hx)
  ⟨_, ht, h.stages x.1 _ ht⟩

theorem placed_once {w : World d} (h : Sound fe hmac cfg env w) : (w.placed.map (·.1)).Nodup := by
  rw [List.nodup_iff_count_le_one]
  intro i
  have hcount : (w.placed.map (·.1)).count i = (w.mine i).length := by
    rw [World.mine, List.length_map, List.count_eq_countP, List.countP_map, List.countP_eq_length_filter]
    rfl
  rw [hcount]
  cases hm : w.mine i with
  | nil => exact Nat.zero_le 1
  | cons o rest =>
    have hx : (i, o) ∈ w.placed := mem_mine.mp (hm ▸ List.mem_cons_self)
    obtain ⟨t, -, hstage⟩ := trade_of_placed h hx
    rw [← hm]
    exact stage_length hstage

theorem accounted {w : World d} (h : Sound fe hmac cfg env w) : Accounted w := by
  have hfill : ∀ (i : ℕ) (t : Trade d) (f : Fill), w.trades[i]? = some t → t.phase = .filled f →
      f = fillOf f.orderID t.order f.fillAt ∧ (i, bookedOrder f.orderID t.order) ∈ w.placed := by
    intro i t f ht hf
    obtain ⟨hterms, hmem⟩ := stage_filled (h.stages i t ht) hf
    exact ⟨hterms, mem_mine.mp hmem⟩
  refine ⟨h.up, h.ids, placed_once h, ?_, hfill, ?_, ?_, ?_⟩
  · intro i o hx
    obtain ⟨t, ht, hstage⟩ := trade_of_placed h hx
    exact ⟨t, ht, stage_own hstage o (mem_mine.mpr hx)⟩
  · intro i j t u f g ht hu hf hg hid
    have hsame := List.inj_on_of_nodup_map (ids_nodup h) (hfill i t f ht hf).2 (hfill j u g hu hg).2 hid
    exact congrArg Prod.fst hsame
  · intro i t e ht he
    exact stage_failed (h.stages i t ht) he
  · intro id hid
    obtain ⟨n, hn, rfl⟩ := h.booked.issued id hid
    rw [h.ids]
    exact List.mem_map_of_mem (List.mem_range.mpr hn)

end

/-- Over every interleaving of calls, messages, losses and FULLTIME frames. -/
theorem trades_accounted {d : Doubles} (fe : FloatEncoder d) (hmac : List UInt8 → List UInt8 → List UInt8)
    (str : Json.Parsed → String) (cfg : TradeConfig) (env : TradeEnv) (boot : JsDate) (hsecret : cfg.authSecret = env.authSecret)
    (moves : List (Move d)) : Accounted (moves.foldl (World.step fe hmac str cfg env boot) (World.start d)) :=
  accounted (fold_inv (Sound fe hmac cfg env) (fun _ m h => step_sound hsecret h m) moves start_sound)

section

variable {d : Doubles} {fe : FloatEncoder d} {hmac : List UInt8 → List UInt8 → List UInt8} {str : Json.Parsed → String}
  {cfg : TradeConfig} {env : TradeEnv} {boot : JsDate}

/-- The newest trade takes a step. -/
theorem on_last (w : World d) (l : List (Trade d)) (t : Trade d) (f : Trade d → World d) :
    World.on { w with trades := l ++ [t] } l.length f = f t := by
  rw [World.on, List.getElem?_concat_length]

theorem set_last (l : List (Trade d)) (t u : Trade d) : (l ++ [t]).set l.length u = l ++ [u] := by
  simp

theorem receive_last (w : World d) (l : List (Trade d)) (t : Trade d) (now : Int) :
    World.step fe hmac str cfg env boot { w with trades := l ++ [t] } (.receive l.length now) =
      { w with trades := l ++ [t.read fe hmac cfg now] } := by
  rw [World.step, on_last, set_last]

theorem deliver_auth (hsecret : cfg.authSecret = env.authSecret) {w : World d} (hup : w.up = true) (l : List (Trade d))
    (o : Order d) (ts now : Int) :
    World.step fe hmac str cfg env boot
      { w with trades := l ++ [⟨o, .authenticating, [signedFrame hmac cfg "auth" (authBody cfg ts)], []⟩] }
      (.deliver l.length now) =
      { w with trades := l ++ [⟨o, .authenticating, [], [ackReply hmac env (ackBytes str cfg d ts)]⟩] } := by
  have hsame : booked w.server w.server = [] := if_pos rfl
  rw [World.step, if_pos hup, on_last]
  simp only [World.serve, onMessage_auth, agree_of_eq hsecret, if_true, hsame, List.map_nil, List.append_nil, List.nil_append,
    set_last]

theorem deliver_order (hsecret : cfg.authSecret = env.authSecret) {w : World d} (hup : w.up = true) (l : List (Trade d))
    (o : Order d) (ts now : Int) :
    World.step fe hmac str cfg env boot
      { w with trades := l ++ [⟨o, .ordering, [signedFrame hmac cfg "body" (orderBody fe o ts)], []⟩] } (.deliver l.length now) =
      { w with
        server := fill w.server o.marketID o.side (d.val o.odds) (d.val o.stake)
        trades := l ++ [⟨o, .ordering, [], [fillReply o (idOf w.server.orderSeq) now]⟩]
        placed := w.placed ++ [(l.length, bookedOrder (idOf w.server.orderSeq) o)] } := by
  rw [World.step, if_pos hup, on_last]
  simp only [World.serve, onMessage_order, agree_of_eq hsecret, if_true, booked_fill, List.map_cons, List.map_nil,
    List.nil_append, set_last]

end

/-- In every state of a run, a call whose four messages get through has its order filled. -/
theorem trade_goes_through {d : Doubles} (fe : FloatEncoder d) (hmac : List UInt8 → List UInt8 → List UInt8)
    (str : Json.Parsed → String) (cfg : TradeConfig) (env : TradeEnv) (boot : JsDate) (hsecret : cfg.authSecret = env.authSecret)
    (moves : List (Move d)) (o : Order d) (hstake : 0 < d.val o.stake) (t0 t1 t2 t3 t4 : Int) :
    let w := moves.foldl (World.step fe hmac str cfg env boot) (World.start d)
    let i := w.trades.length
    let w' := [.call o t0 true, .deliver i t1, .receive i t2, .deliver i t3, .receive i t4].foldl
      (World.step fe hmac str cfg env boot) w
    w'.trades = w.trades ++ [⟨o, .filled (fillOf (idOf w.server.orderSeq) o t4), [], []⟩] ∧
      w'.placed = w.placed ++ [(i, bookedOrder (idOf w.server.orderSeq) o)] := by
  intro w i w'
  have hup : w.up = true :=
    (fold_inv (Sound fe hmac cfg env) (fun _ m h => step_sound hsecret h m) moves start_sound).up
  have hopen : openTrade hmac cfg o t0 true = ⟨o, .authenticating, [signedFrame hmac cfg "auth" (authBody cfg t0)], []⟩ := by
    rw [openTrade, if_neg (not_le.mpr hstake), if_pos rfl]
  have hack : Trade.read fe hmac cfg ⟨o, .authenticating, [], [ackReply hmac env (ackBytes str cfg d t0)]⟩ t2 =
      ⟨o, .ordering, [signedFrame hmac cfg "body" (orderBody fe o t2)], []⟩ := by
    simp only [Trade.read, checkAck_ackReply, agree_of_eq hsecret, if_true, List.nil_append]
  have hfill : Trade.read fe hmac cfg ⟨o, .ordering, [], [fillReply o (idOf w.server.orderSeq) t3]⟩ t4 =
      ⟨o, .filled (fillOf (idOf w.server.orderSeq) o t4), [], []⟩ := by
    simp only [Trade.read, readFill_fillReply, fillOf]
  have hrun : w' = { w with
      server := fill w.server o.marketID o.side (d.val o.odds) (d.val o.stake)
      trades := w.trades ++ [⟨o, .filled (fillOf (idOf w.server.orderSeq) o t4), [], []⟩]
      placed := w.placed ++ [(i, bookedOrder (idOf w.server.orderSeq) o)] } := by
    simp only [w', List.foldl_cons, List.foldl_nil]
    have hcall : World.step fe hmac str cfg env boot w (.call o t0 true) =
        { w with trades := w.trades ++ [⟨o, .authenticating, [signedFrame hmac cfg "auth" (authBody cfg t0)], []⟩] } := by
      rw [World.step, hopen]
    rw [hcall, deliver_auth hsecret hup, receive_last w, hack, deliver_order hsecret hup, ← hfill]
    exact receive_last { w with server := _, placed := _ } w.trades _ t4
  rw [hrun]
  exact ⟨rfl, rfl⟩

def plainEncoder : FloatEncoder decimals := ⟨decimals.repr, fun _ => rfl⟩

/-- A bet of ten at three to one. -/
def tenAtThree : Order decimals := ⟨"1X2 <Ü>", "home", Json.Lit.ofInt 3, Json.Lit.ofInt 10⟩

theorem ten_at_three_goes_through :
    let w := ([] : List (Move decimals)).foldl
      (World.step plainEncoder (fun _ _ => digest) (fun _ => "0") ⟨"secret", "key"⟩ ⟨"secret"⟩ boot0) (World.start decimals)
    let w' := [.call tenAtThree 0 true, .deliver w.trades.length 1, .receive w.trades.length 2, .deliver w.trades.length 3,
      .receive w.trades.length 4].foldl
      (World.step plainEncoder (fun _ _ => digest) (fun _ => "0") ⟨"secret", "key"⟩ ⟨"secret"⟩ boot0) w
    w'.trades = w.trades ++ [⟨tenAtThree, .filled (fillOf (idOf w.server.orderSeq) tenAtThree 4), [], []⟩] ∧
      w'.placed = w.placed ++ [(w.trades.length, bookedOrder (idOf w.server.orderSeq) tenAtThree)] :=
  trade_goes_through plainEncoder (fun _ _ => digest) (fun _ => "0") ⟨"secret", "key"⟩ ⟨"secret"⟩ boot0 rfl [] tenAtThree
    (by decide +kernel) 0 1 2 3 4

/-- Two calls; the first one's fill comes too late. -/
def lateFill : List (Move decimals) :=
  [.call tenAtThree 0 true, .call tenAtThree 1 true, .deliver 0 2, .receive 0 3, .deliver 0 4, .giveUp 0, .receive 0 5]

theorem late_fill_accounted : Accounted (lateFill.foldl
    (World.step plainEncoder (fun _ _ => digest) (fun _ => "0") ⟨"secret", "key"⟩ ⟨"secret"⟩ boot0) (World.start decimals)) :=
  trades_accounted plainEncoder (fun _ _ => digest) (fun _ => "0") ⟨"secret", "key"⟩ ⟨"secret"⟩ boot0 rfl lateFill

/-! ## Strangers -/

section

variable {d : Doubles} {fe : FloatEncoder d} {hmac : List UInt8 → List UInt8 → List UInt8} {str : Json.Parsed → String}
  {cfg : TradeConfig} {env : TradeEnv} {boot : JsDate}

variable (hmac cfg) in
/-- Where a trade can be that the bookmaker does not know. -/
inductive Outside : Trade d → Prop
  | auth (o ts) : Outside ⟨o, .authenticating, [signedFrame hmac cfg "auth" (authBody cfg ts)], []⟩
  | authLost (o) : Outside ⟨o, .authenticating, [], []⟩
  | denied (o) : Outside ⟨o, .authenticating, [], [refusal "error" "bad auth sig"]⟩
  | left (o e ts answers) : Outside ⟨o, .failed e, [signedFrame hmac cfg "auth" (authBody cfg ts)], answers⟩
  | gone (o e answers) : Outside ⟨o, .failed e, [], answers⟩

variable (hmac cfg) in
structure Kept (w : World d) : Prop where
  server : w.server = Vendor.start
  trades : ∀ t ∈ w.trades, Outside hmac cfg t

theorem openTrade_outside (o : Order d) (ts : Int) (dials : Bool) : Outside hmac cfg (openTrade hmac cfg o ts dials) := by
  unfold openTrade
  split
  · exact .gone o _ _
  · split
    · exact .auth o ts
    · exact .gone o _ _

theorem giveUp_outside {t : Trade d} (h : Outside hmac cfg t) : Outside hmac cfg t.giveUp := by
  cases h with
  | auth o ts => exact .left o _ ts []
  | authLost o => exact .gone o _ []
  | denied o => exact .gone o _ _
  | left o e ts answers => exact .left o e ts answers
  | gone o e answers => exact .gone o e answers

theorem lose_outside {t : Trade d} (h : Outside hmac cfg t) : Outside hmac cfg { t with toServer := [] } := by
  cases h with
  | auth o ts => exact .authLost o
  | authLost o => exact .authLost o
  | denied o => exact .denied o
  | left o e ts answers => exact .gone o e answers
  | gone o e answers => exact .gone o e answers

theorem read_outside {t : Trade d} (h : Outside hmac cfg t) (now : Int) : Outside hmac cfg (t.read fe hmac cfg now) := by
  cases h with
  | auth o ts => exact .auth o ts
  | authLost o => exact .authLost o
  | denied o =>
    simp only [Trade.read, checkAck_refusal hmac cfg "error" (by decide)]
    exact .gone o _ []
  | left o e ts answers => cases answers <;> exact .left o e ts _
  | gone o e answers => cases answers <;> exact .gone o e _

theorem set_kept {w : World d} (h : Kept hmac cfg w) (i : Nat) {t : Trade d} (ht : Outside hmac cfg t) :
    Kept hmac cfg { w with trades := w.trades.set i t } := by
  refine ⟨h.server, fun u hu => ?_⟩
  rcases List.mem_or_eq_of_mem_set hu with hu | rfl
  · exact h.trades u hu
  · exact ht

theorem serve_kept (hapart : ∀ body, agree hmac cfg env body = false) {w : World d} (h : Kept hmac cfg w) (i : Nat) {t : Trade d}
    (ht : Outside hmac cfg t) (now : Int) : Kept hmac cfg (w.serve hmac str env i t now) := by
  have hdeny : ∀ ts, onMessage d hmac str env w.server now (some (signedFrame hmac cfg "auth" (authBody cfg ts))) =
      .replied w.server (refusal "error" "bad auth sig") := by
    intro ts
    rw [onMessage_auth, hapart]
    rfl
  have hsame : booked w.server w.server = [] := if_pos rfl
  cases ht with
  | auth o ts =>
    simp only [World.serve, hdeny, hsame, List.map_nil, List.append_nil, List.nil_append]
    exact set_kept h i (.denied o)
  | authLost o => exact h
  | denied o => exact h
  | left o e ts answers =>
    simp only [World.serve, hdeny, hsame, List.map_nil, List.append_nil]
    exact set_kept h i (.gone o e _)
  | gone o e answers => exact h

theorem on_kept {w : World d} (h : Kept hmac cfg w) {i : Nat} {f : Trade d → World d}
    (hf : ∀ t, Outside hmac cfg t → Kept hmac cfg (f t)) : Kept hmac cfg (w.on i f) := by
  unfold World.on
  split
  · exact h
  · exact hf _ (h.trades _ (List.mem_of_getElem? ‹_›))

variable (fe str boot) in
theorem step_kept (hapart : ∀ body, agree hmac cfg env body = false) {w : World d} (h : Kept hmac cfg w) (m : Move d) :
    Kept hmac cfg (w.step fe hmac str cfg env boot m) := by
  cases m with
  | call o ts dials =>
    refine ⟨h.server, fun u hu => ?_⟩
    rcases List.mem_append.mp hu with hu | hu
    · exact h.trades u hu
    · rw [List.mem_singleton.mp hu]
      exact openTrade_outside o ts dials
  | deliver i now =>
    simp only [World.step]
    split
    · exact on_kept h fun t ht => serve_kept hapart h i ht now
    · exact h
  | receive i now => exact on_kept h fun t ht => set_kept h i (read_outside ht now)
  | giveUp i => exact on_kept h fun t ht => set_kept h i (giveUp_outside ht)
  | lose i => exact on_kept h fun t ht => set_kept h i (lose_outside ht)
  | fulltime score now ready =>
    simp only [World.step]
    split
    · have hempty : publishSettlement Vendor.start (cycleAt boot now) score ready = Vendor.start := by
        simp [publishSettlement, orders, Vendor.start, Table.empty]
      refine ⟨?_, h.trades⟩
      show publishSettlement w.server _ _ _ = _
      rw [h.server, hempty]
    · exact h

theorem outside_unfilled {t : Trade d} (h : Outside hmac cfg t) (f : Fill) : t.phase ≠ .filled f := by
  cases h <;> exact nofun

end

/-- An executor whose signatures are not the bookmaker's places nothing and fills nothing. -/
theorem strangers_place_nothing {d : Doubles} (fe : FloatEncoder d) (hmac : List UInt8 → List UInt8 → List UInt8)
    (str : Json.Parsed → String) (cfg : TradeConfig) (env : TradeEnv) (boot : JsDate)
    (hapart : ∀ body, agree hmac cfg env body = false) (moves : List (Move d)) :
    let w := moves.foldl (World.step fe hmac str cfg env boot) (World.start d)
    w.server = Vendor.start ∧ ∀ t ∈ w.trades, ∀ f, t.phase ≠ .filled f := by
  have hstart : Kept hmac cfg (World.start d) := ⟨rfl, nofun⟩
  have hkept := fold_inv (Kept hmac cfg) (fun w m h => step_kept fe str boot hapart h m) moves hstart
  exact ⟨hkept.server, fun t ht f => outside_unfilled (hkept.trades t ht) f⟩

/-- The digest here is the key itself. -/
theorem a_stranger_places_nothing :
    let w := lateFill.foldl (World.step plainEncoder (fun key _ => key) (fun _ => "0") ⟨"guess", "key"⟩ ⟨"secret"⟩ boot0)
      (World.start decimals)
    w.server = Vendor.start ∧ ∀ t ∈ w.trades, ∀ f, t.phase ≠ .filled f := by
  have hapart : (Text.utf8 "guess".toList == Text.utf8 "secret".toList) = false := by decide +kernel
  exact strangers_place_nothing plainEncoder (fun key _ => key) (fun _ => "0") ⟨"guess", "key"⟩ ⟨"secret"⟩ boot0
    (fun _ => hapart) lateFill

end CasuyaLive.System
