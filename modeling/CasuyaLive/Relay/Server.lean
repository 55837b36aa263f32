/-
  CasuyaLive.Relay.Server — the WebSocket relay (web-interface-js, backend/server.js:
  `verifyAdminToken`, the upgrade and connection handlers, the subscribe callback).

  The relay subscribes to its channels one after the other; a message of a channel goes to
  the callback once for each time the channel was subscribed. The callback prints the frame,
  fans it out, then keeps the outcomes ledger. What it throws nobody catches: Node ends the
  process and every socket with it. The payload alone decides: a frame nested so deep that
  the stack ends is not printed (`Node.prints`), and the ledger's part throws on what
  `throws` names (`record_throws`, `record_ok`).

  `Node` is what the platform computes and the source does not: the digest, the text of a
  base64url half, the token in a URL, the numbers of literals, texts and arrays, how deep the
  stack goes. The clients of Redis answer every command.
-/

import CasuyaLive.Lib.Json
import CasuyaLive.Lib.Table

namespace CasuyaLive.Relay

open CasuyaLive.Lib

/-! ## Configuration -/

structure Env where
  adminSecret : String
  matchesChannel : Option String
  diagChannel : Option String
  pnlChannel : Option String
  commandsChannel : Option String
  extraChannels : Option String

/-- `process.env.X || fallback`. -/
def orElse (x : Option String) (fallback : String) : String := (x.filter (· != "")).getD fallback

/-- What `String.prototype.trim` removes. -/
def isJsSpace (c : Char) : Bool := (Text.isSpace c && c != '\u0085') || c == '\uFEFF'

namespace Env

variable (env : Env)

def publicChannel : String := orElse env.matchesChannel "matches:live"

def extras : List String :=
  match env.extraChannels with
  | none => []
  | some text => ((text.toList.splitOn ',').map fun c => Text.trim isJsSpace (String.ofList c)).filter (· != "")

def channels : List String :=
  [env.publicChannel, orElse env.diagChannel "diagnostics:events", orElse env.pnlChannel "execution:pnl",
    orElse env.commandsChannel "execution:commands"] ++ env.extras

/-- The callback keeps the ledger for these. -/
def isPnl (ch : String) : Bool := env.pnlChannel == some ch || ch == "execution:pnl"

end Env

/-! ## The outcomes ledger -/

inductive Thrown where
  | typeError
  /-- The stack ends. -/
  | rangeError

/-- Nothing for NaN and the infinities. -/
structure Numbers (N : Type) where
  value : N → Option ℚ
  ofText : Json.Utf16 → Option ℚ
  /-- The number of the text that the array is joined to. -/
  ofArray : List (Json N Json.Utf16) → Except Thrown (Option ℚ)

structure Outcomes where
  net : ℚ
  won : Int
  lost : Int
  deriving DecidableEq

section

variable {N : Type}

mutual

/-- A member of its own named toString hides the one that prints. -/
def unprintable : Json N Json.Utf16 → Bool
  | .null => false
  | .bool _ => false
  | .num _ => false
  | .str _ => false
  | .arr xs => anyUnprintable xs
  | .obj fields => fields.any fun f => f.1 == Json.ofString "toString"

def anyUnprintable : List (Json N Json.Utf16) → Bool
  | [] => false
  | x :: xs => unprintable x || anyUnprintable xs

end

variable (nums : Numbers N)

/-- `Number(x || 0)`. -/
def numberOf (x : Json N Json.Utf16) : Except Thrown (Option ℚ) :=
  if unprintable x then .error .typeError
  else
    match x with
    | .null => .ok (some 0)
    | .bool b => .ok (some (if b then 1 else 0))
    | .num n => .ok (nums.value n)
    | .str us => .ok (if us.isEmpty then some 0 else nums.ofText us)
    | .arr xs => nums.ofArray xs
    | .obj _ => .ok none

structure Tally where
  net : Option ℚ
  won : Nat
  lost : Nat

/-- Whether the order's result is this word. -/
def resultIs (word : String) (order : Json N Json.Utf16) : Bool :=
  match order.get? (Json.ofString "result") with
  | some (.str us) => us == Json.ofString word
  | some .null => false
  | some (.bool _) => false
  | some (.num _) => false
  | some (.arr _) => false
  | some (.obj _) => false
  | none => false

/-- A field of null is no field. -/
def isNull : Json N Json.Utf16 → Bool
  | .null => true
  | .bool _ => false
  | .num _ => false
  | .str _ => false
  | .arr _ => false
  | .obj _ => false

def addOrder (t : Tally) (order : Json N Json.Utf16) : Except Thrown Tally :=
  if isNull order then .error .typeError
  else do
    let pnl ← numberOf nums ((order.get? (Json.ofString "pnl")).getD .null)
    return { net := t.net.bind fun net => pnl.map fun pnl => net + pnl
             won := if resultIs "won" order then t.won + 1 else t.won
             lost := if !resultIs "won" order && resultIs "lost" order then t.lost + 1 else t.lost }

/-- `Array.isArray(payload.settled) ? payload.settled : []`. -/
def settledOf (payload : Json N Json.Utf16) : List (Json N Json.Utf16) :=
  match payload.get? (Json.ofString "settled") with
  | some (.arr xs) => xs
  | some .null => []
  | some (.bool _) => []
  | some (.num _) => []
  | some (.str _) => []
  | some (.obj _) => []
  | none => []

/-- HINCRBYFLOAT refuses what is no number; an increment of zero is left out. -/
def Outcomes.add (o : Outcomes) (t : Tally) : Outcomes := ⟨o.net + t.net.getD 0, o.won + t.won, o.lost + t.lost⟩

def record (o : Outcomes) (payload : Json N Json.Utf16) : Except Thrown Outcomes :=
  if isNull payload then .error .typeError
  else if (settledOf payload).isEmpty then .ok o
  else do
    let t ← (settledOf payload).foldlM (addOrder nums) ⟨some 0, 0, 0⟩
    return o.add t

/-- Null where an order should be, or a pnl that has no number. -/
def badOrder (order : Json N Json.Utf16) : Bool :=
  isNull order || !(numberOf nums ((order.get? (Json.ofString "pnl")).getD .null)).isOk

def throws (payload : Json N Json.Utf16) : Bool := isNull payload || (settledOf payload).any (badOrder nums)

theorem addOrder_bad {t : Tally} {order : Json N Json.Utf16} (h : badOrder nums order = true) :
    ∃ e, addOrder nums t order = .error e := by
  unfold addOrder
  by_cases hn : isNull order = true
  · exact ⟨.typeError, by rw [if_pos hn]⟩
  · rw [badOrder, Bool.or_eq_true, or_iff_right hn] at h
    rw [if_neg hn]
    cases hp : numberOf nums ((order.get? (Json.ofString "pnl")).getD .null) with
    | ok pnl =>
      rw [hp] at h
      cases h
    | error e => exact ⟨e, rfl⟩

theorem addOrder_good {t : Tally} {order : Json N Json.Utf16} (h : badOrder nums order = false) :
    ∃ t', addOrder nums t order = .ok t' := by
  rw [badOrder, Bool.or_eq_false_iff] at h
  unfold addOrder
  rw [if_neg (by simp [h.1])]
  cases hp : numberOf nums ((order.get? (Json.ofString "pnl")).getD .null) with
  | ok pnl => exact ⟨_, rfl⟩
  | error e =>
    rw [hp] at h
    cases h.2

theorem tally_bad {orders : List (Json N Json.Utf16)} (h : orders.any (badOrder nums) = true) :
    ∀ t : Tally, ∃ e, orders.foldlM (addOrder nums) t = .error e := by
  induction orders with
  | nil => cases h
  | cons order orders ih =>
    intro t
    rw [List.foldlM_cons]
    by_cases hb : badOrder nums order = true
    · obtain ⟨e, he⟩ := addOrder_bad nums (t := t) hb
      exact ⟨e, by rw [he]; rfl⟩
    · obtain ⟨t', ht⟩ := addOrder_good nums (t := t) (by simpa using hb)
      rw [ht]
      exact ih (by simpa [hb] using h) t'

theorem tally_good {orders : List (Json N Json.Utf16)} (h : orders.any (badOrder nums) = false) :
    ∀ t : Tally, ∃ t', orders.foldlM (addOrder nums) t = .ok t' := by
  induction orders with
  | nil => intro t; exact ⟨t, rfl⟩
  | cons order orders ih =>
    intro t
    rw [List.any_cons, Bool.or_eq_false_iff] at h
    obtain ⟨t', ht⟩ := addOrder_good nums (t := t) h.1
    rw [List.foldlM_cons, ht]
    exact ih h.2 t'

/-- The payload alone decides whether the ledger's part of the callback throws. -/
theorem record_throws (o : Outcomes) {payload : Json N Json.Utf16} (h : throws nums payload = true) :
    ∃ e, record nums o payload = .error e := by
  unfold record
  by_cases hn : isNull payload = true
  · exact ⟨.typeError, by rw [if_pos hn]⟩
  · have hany : (settledOf payload).any (badOrder nums) = true := by simpa [throws, hn] using h
    have hsome : ¬(settledOf payload).isEmpty = true := by
      intro he
      rw [List.isEmpty_iff.mp he] at hany
      cases hany
    obtain ⟨e, he⟩ := tally_bad nums hany ⟨some 0, 0, 0⟩
    exact ⟨e, by rw [if_neg hn, if_neg hsome, he]; rfl⟩

theorem record_ok (o : Outcomes) {payload : Json N Json.Utf16} (h : throws nums payload = false) :
    ∃ o', record nums o payload = .ok o' := by
  rw [throws, Bool.or_eq_false_iff] at h
  unfold record
  rw [if_neg (by simp [h.1])]
  by_cases he : (settledOf payload).isEmpty = true
  · exact ⟨o, by rw [if_pos he]⟩
  · obtain ⟨t, ht⟩ := tally_good nums h.2 ⟨some 0, 0, 0⟩
    exact ⟨o.add t, by rw [if_neg he, ht]; rfl⟩

end

/-! ## Tokens and roles -/

structure Node where
  /-- base64url of the HMAC-SHA256 of a text under a secret. -/
  digest : String → String → String
  /-- The text that a base64url text encodes. -/
  text : String → String
  /-- The token parameter of a URL, empty when there is none or the URL does not parse. -/
  token : String → String
  nums : Numbers Json.Lit
  /-- Whether JSON.stringify prints a frame of this type and data; nested too deep it throws. -/
  prints : String → Json.Parsed → Bool

inductive Role where
  | admin
  /-- "public" -/
  | pub
  deriving DecidableEq

section

variable (node : Node) (env : Env)

/-- `body.sub === "admin" && Number.isFinite(body.exp) && body.exp > now`, in seconds. -/
def grants (nums : Numbers Json.Lit) (now : Int) (body : Json.Parsed) : Bool :=
  match body.get? (Json.ofString "sub"), body.get? (Json.ofString "exp") with
  | some (.str sub), some (.num exp) =>
    sub == Json.ofString "admin" && (nums.value exp).any fun t => decide (((now / 1000 : Int) : ℚ) < t)
  | _, _ => false

def verifyAdminToken (now : Int) (token : String) : Bool :=
  if token == "" || env.adminSecret == "" then false
  else
    match token.toList.splitOn '.' with
    | [payload, sig] =>
      node.digest env.adminSecret (String.ofList payload) == String.ofList sig &&
        (Json.parse (node.text (String.ofList payload)).toList).any (grants node.nums now)
    | _ => false

def roleOf (now : Int) (url : String) : Role :=
  if node.token url ≠ "" ∧ verifyAdminToken node env now (node.token url) = true then .admin else .pub

end

/-! ## The relay -/

/-- `JSON.parse(message)`, or the message wrapped. -/
def payloadOf (message : String) : Json.Parsed :=
  (Json.parse message.toList).getD (.obj [(Json.ofString "raw", .str (Json.ofString message))])

structure Frame where
  type : String
  data : Json.Parsed
  ts : Int

structure Socket where
  id : Nat
  role : Role
  isOpen : Bool
  deriving DecidableEq

structure Sent where
  socket : Nat
  role : Role
  frame : Frame

structure Server where
  /-- The process runs. -/
  alive : Bool
  /-- How many of the channels are subscribed. -/
  listening : Nat
  /-- Upgrades so far. -/
  upgrades : Nat
  /-- `wss.clients`. -/
  sockets : List Socket
  outcomes : Outcomes
  staleness : Table String Int
  /-- Every frame handed to a socket. -/
  sent : List Sent

def start (outcomes : Outcomes) (staleness : Table String Int) : Server := ⟨true, 0, 0, [], outcomes, staleness, []⟩

inductive Event where
  /-- The next `sub.subscribe` resolves. -/
  | subscribe
  /-- An upgrade request at a time, and whether its handshake completes. -/
  | upgrade (url : String) (handshake : Bool) (now : Int)
  /-- The socket's closing handshake begins. -/
  | closing (id : Nat)
  | closed (id : Nat)
  | message (ch : String) (text : String) (now : Int)

section

variable (node : Node) (env : Env)

/-- An open socket the channel is meant for. -/
def receives (ch : String) (s : Socket) : Bool := s.isOpen && (s.role == .admin || ch == env.publicChannel)

def fanOut (r : Server) (ch text : String) (now : Int) : List Sent :=
  (r.sockets.filter (receives env ch)).map fun s => ⟨s.id, s.role, ⟨ch, payloadOf text, now⟩⟩

def fannedOut (r : Server) (ch text : String) (now : Int) : Server := { r with sent := r.sent ++ fanOut env r ch text now }

/-- Nobody catches what the callback throws. -/
def ended (r : Server) : Server := { r with alive := false, sockets := [] }

/-- The subscribe callback. -/
def onMessage (r : Server) (ch text : String) (now : Int) : Server :=
  if node.prints ch (payloadOf text) = false then ended r
  else if env.isPnl ch then
    match record node.nums r.outcomes (payloadOf text) with
    | .ok o => { fannedOut env r ch text now with outcomes := o, staleness := r.staleness.set ch now }
    | .error _ => ended (fannedOut env r ch text now)
  else { fannedOut env r ch text now with staleness := r.staleness.set ch now }

/-- The callbacks of a channel, one after the other. -/
def deliver (ch text : String) (now : Int) : Nat → Server → Server
  | 0, r => r
  | n + 1, r => if r.alive then deliver ch text now n (onMessage node env r ch text now) else r

def subscribed (r : Server) : List String := env.channels.take r.listening

def react (r : Server) : Event → Server
  | .subscribe => { r with listening := r.listening + 1 }
  | .upgrade url handshake now =>
    let sockets := if url.toList.takeWhile (· != '?') = "/ws".toList ∧ handshake = true then
      r.sockets ++ [⟨r.upgrades, roleOf node env now url, true⟩] else r.sockets
    { r with upgrades := r.upgrades + 1, sockets := sockets }
  | .closing id => { r with sockets := r.sockets.map fun s => if s.id = id then { s with isOpen := false } else s }
  | .closed id => { r with sockets := r.sockets.filter fun s => s.id != id }
  | .message ch text now => deliver node env ch text now ((subscribed env r).count ch) r

def step (r : Server) (e : Event) : Server := if r.alive then react node env r e else r

def run (r : Server) (es : List Event) : Server := es.foldl (step node env) r

end

end CasuyaLive.Relay
