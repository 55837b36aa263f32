/-
  CasuyaLive.Execution.Live.Trade — the executor's end of a trade (execution-engine-go,
  internal/broker/client.go: `sign`, `authHandshake`, `placeOrder`).

  A trade has a connection of its own and two messages each way: the authentication and its
  acknowledgement, the order and its fill. What is signed is bytes; a frame around them is the
  value that its text stands for. How encoding/json prints a double is a `FloatEncoder`.
-/

import CasuyaLive.Lib.JsonText
import CasuyaLive.Execution.Live.Frames

namespace CasuyaLive.Execution.Live

open CasuyaLive.Lib
open Json (Wire object text)

/-- The literals that encoding/json prints; each names its double. -/
structure FloatEncoder (d : Doubles) where
  lit : d.F → Json.Lit
  nearest_lit : ∀ x, d.nearest (lit x) = some x

/-- What `PlaceOrder` is called with. -/
structure Order (d : Doubles) where
  marketID : String
  side : String
  odds : d.F
  stake : d.F

/-- The shared secret and the bookmaker's key of one executor. -/
structure TradeConfig where
  authSecret : String
  bookmakerKey : String

variable {d : Doubles} (fe : FloatEncoder d) (hmac : List UInt8 → List UInt8 → List UInt8)

/-- `json.Marshal`. -/
def marshal (v : Json Json.Lit String) : List UInt8 := Text.utf8 (Json.go.text v)

def sign (body : List UInt8) (secret : String) : String :=
  String.ofList (Base64.url.encodeRaw (hmac (Text.utf8 secret.toList) body))

def authBody (cfg : TradeConfig) (ts : Int) : List UInt8 :=
  marshal (.obj [("key", .str cfg.bookmakerKey), ("ts", .num (.ofInt ts))])

/-- A map is marshalled in the order of its keys. -/
def orderBody (o : Order d) (ts : Int) : List UInt8 :=
  marshal (.obj [("client_ts", .num (.ofInt ts)), ("market", .str o.marketID), ("odds", .num (fe.lit o.odds)),
    ("side", .str o.side), ("stake", .num (fe.lit o.stake)), ("type", .str "place_order")])

/-- The signed bytes under a field, beside their signature. -/
def signedFrame (cfg : TradeConfig) (field : String) (body : List UInt8) : Wire :=
  object [(field, text (String.ofList (Base64.std.encode body))), ("sig", text (sign hmac body cfg.authSecret))]

/-! ## The acknowledgement -/

inductive TradeError where
  | stake
  | dial
  | ackRead
  | malformedAck
  | authRejected
  | ackBody
  | ackSignature
  | responseRead
  | response
  | notFilled
  deriving DecidableEq

structure Ack where
  status : String
  body : String
  sig : String

def setAck (a : Ack) (key : String) (v : Wire) : Option Ack :=
  if named "status" key then (textOr a.status v).map fun x => { a with status := x }
  else if named "body" key then (textOr a.body v).map fun x => { a with body := x }
  else if named "sig" key then (textOr a.sig v).map fun x => { a with sig := x }
  else some a

/-- `base64.StdEncoding.DecodeString`: whole groups, two pads at most, line breaks skipped. -/
def stdDecodeString (s : String) : Option (List UInt8) :=
  let cs := s.toList.filter fun c => c != '\r' && c != '\n'
  let digits := (Text.trimRight '=' (String.ofList cs)).toList
  if cs.length % 4 = 0 ∧ cs.length ≤ digits.length + 2 then Base64.std.decode digits else none

theorem stdDecodeString_encode (bs : List UInt8) : stdDecodeString (String.ofList (Base64.std.encode bs)) = some bs := by
  have hplain : ∀ c ∈ Base64.std.encodeRaw bs, c ≠ '=' ∧ c ≠ '\r' ∧ c ≠ '\n' := by
    intro c hc
    have hp := Base64.std.encodeRaw_plain hc
    simp only [List.mem_cons, not_or] at hp
    exact ⟨hp.1, hp.2.2.2.2.1, hp.2.2.1⟩
  have hkeep : (Base64.std.encode bs).filter (fun c => c != '\r' && c != '\n') = Base64.std.encode bs := by
    rw [List.filter_eq_self]
    intro c hc
    rcases List.mem_append.mp hc with hc | hc
    · simp [hplain c hc]
    · rw [List.eq_of_mem_replicate hc]
      decide
  have hdigits : Text.trimRight '=' (String.ofList (Base64.std.encode bs)) = String.ofList (Base64.std.encodeRaw bs) :=
    Text.trimRight_replicate (fun h => (hplain '=' h).1 rfl) (Base64.pads bs)
  have hlen : (Base64.std.encode bs).length = (Base64.std.encodeRaw bs).length + Base64.pads bs := by
    rw [Base64.Alphabet.encode, List.length_append, List.length_replicate]
  have hwhole := Base64.std.encodeRaw_length bs
  simp only [stdDecodeString, String.toList_ofList, hkeep, hdigits]
  rw [if_pos, Base64.Alphabet.decode_encodeRaw]
  rw [hlen, Base64.pads] at *
  exact ⟨hwhole, by omega⟩

def checkAck (cfg : TradeConfig) (resp : Wire) : Except TradeError Unit :=
  match structOr setAck ⟨"", "", ""⟩ resp with
  | none => .error .malformedAck
  | some ack =>
    if ack.status ≠ "ok" then .error .authRejected
    else
      match stdDecodeString ack.body with
      | none => .error .ackBody
      | some body => if verifyHMAC hmac body ack.sig cfg.authSecret then .ok () else .error .ackSignature

/-! ## The fill -/

structure OrderResult where
  status : String
  orderID : String
  markup : String
  side : String
  odds : ℚ
  stake : ℚ

def setResult (r : OrderResult) (key : String) (v : Wire) : Option OrderResult :=
  if named "status" key then (textOr r.status v).map fun x => { r with status := x }
  else if named "order_id" key then (textOr r.orderID v).map fun x => { r with orderID := x }
  else if named "market" key then (textOr r.markup v).map fun x => { r with markup := x }
  else if named "side" key then (textOr r.side v).map fun x => { r with side := x }
  else if named "odds" key then (floatOr r.odds v).map fun x => { r with odds := x }
  else if named "stake" key then (floatOr r.stake v).map fun x => { r with stake := x }
  else some r

/-- The terms of the fill are the order's own; of the answer only the id is taken. -/
def readFill (o : Order d) (now : Int) (resp : Wire) : Except TradeError Fill :=
  match structOr setResult ⟨"", "", "", "", 0, 0⟩ resp with
  | none => .error .response
  | some r =>
    if r.status ≠ "filled" then .error .notFilled
    else
      .ok
        { orderID := if r.orderID = "" then "L" ++ Text.itoa now else r.orderID
          market := o.marketID
          side := o.side
          odds := d.val o.odds
          stake := d.val o.stake
          matchID := ""
          fillAt := now }

theorem setAck_spec (a : Ack) (v : Wire) :
    setAck a "status" v = (textOr a.status v).map (fun x => { a with status := x }) ∧
    setAck a "body" v = (textOr a.body v).map (fun x => { a with body := x }) ∧
    setAck a "sig" v = (textOr a.sig v).map (fun x => { a with sig := x }) :=
  ⟨rfl, rfl, rfl⟩

theorem setResult_spec (r : OrderResult) (v : Wire) :
    setResult r "status" v = (textOr r.status v).map (fun x => { r with status := x }) ∧
    setResult r "order_id" v = (textOr r.orderID v).map (fun x => { r with orderID := x }) ∧
    setResult r "market" v = (textOr r.markup v).map (fun x => { r with markup := x }) ∧
    setResult r "side" v = (textOr r.side v).map (fun x => { r with side := x }) ∧
    setResult r "odds" v = (floatOr r.odds v).map (fun x => { r with odds := x }) ∧
    setResult r "stake" v = (floatOr r.stake v).map (fun x => { r with stake := x }) ∧
    setResult r "fill_ts" v = some r :=
  ⟨rfl, rfl, rfl, rfl, rfl, rfl, rfl⟩

end CasuyaLive.Execution.Live
