/-
  CasuyaLive.Vendor.Trade — the bookmaker's end of a trade (mock-vendor, server.js:
  `verifySig`, `tradeServer`).

  A handler answers each message of a connection and remembers nothing of it. What it throws
  nobody catches: Node ends the process (`raised`). A message whose bytes are no string or
  whose signature is an array or an object, which `Buffer.from` may read, and a signed order
  whose market and side are no strings or whose odds and stake no numbers, are left out
  (`foreign`). A frame is the value that its text stands for; the text of a value in
  an acknowledgement (`String(x)`) is a parameter.
-/

import CasuyaLive.Lib.Utf8
import CasuyaLive.Vendor.Server
import CasuyaLive.Execution.Live.Trade

namespace CasuyaLive.Vendor

open CasuyaLive.Lib CasuyaLive.Execution
open Json (Wire text object)

/-! ## Buffer.from -/

/-- Either alphabet. -/
def bufferValue (c : Char) : Option Nat := (Base64.std.value c).or (Base64.url.value c)

/-- The bytes of groups of six bits; what fills no byte is dropped. -/
def bufferBytes : List Nat → List UInt8
  | [] => []
  | [_] => []
  | [w, x] => [(w * 4 + x / 16).toUInt8]
  | [w, x, y] => [(w * 4 + x / 16).toUInt8, (x % 16 * 16 + y / 4).toUInt8]
  | w :: x :: y :: z :: ns =>
    (w * 4 + x / 16).toUInt8 :: (x % 16 * 16 + y / 4).toUInt8 :: (y % 4 * 64 + z).toUInt8 :: bufferBytes ns

/-- `Buffer.from(s, "base64")` and `"base64url"`: up to the first pad, and what is no digit is
    skipped. -/
def bufferFrom (s : String) : List UInt8 := bufferBytes ((s.toList.takeWhile (· != '=')).filterMap bufferValue)

theorem bufferBytes_sextets (bs : List UInt8) : bufferBytes (Base64.sextets bs) = bs := by
  have hnone : ∀ ns : List Nat, ∀ bytes, Base64.bytesOf ns = some bytes → bufferBytes ns = bytes := by
    intro ns
    induction ns using Base64.bytesOf.induct with
    | case1 => intro bytes h; exact Option.some.inj h
    | case2 => intro bytes h; cases h
    | case3 w x => intro bytes h; exact Option.some.inj h
    | case4 w x y => intro bytes h; exact Option.some.inj h
    | case5 w x y z ns ih =>
      intro bytes h
      obtain ⟨rest, hrest, rfl⟩ := Option.map_eq_some_iff.mp h
      rw [bufferBytes, ih rest hrest]
  exact hnone _ _ (Base64.bytesOf_sextets bs)

theorem bufferFrom_digits {α : Base64.Alphabet} (hvalue : ∀ n < 64, bufferValue (α.digit n) = some n) (bs : List UInt8)
    (n : Nat) : bufferFrom (String.ofList (α.encodeRaw bs ++ List.replicate n '=')) = bs := by
  have hdigit : ∀ c ∈ α.encodeRaw bs, (c != '=') = true := by
    intro c hc
    have hplain := α.encodeRaw_plain hc
    simp only [List.mem_cons, not_or] at hplain
    simp [hplain.1]
  have hpads : (List.replicate n '=').takeWhile (· != '=') = [] := by
    cases n <;> simp [List.replicate_succ]
  have hread : ∀ ns : List Nat, (∀ k ∈ ns, k < 64) → (ns.map α.digit).filterMap bufferValue = ns := by
    intro ns
    induction ns with
    | nil => intro _; rfl
    | cons k ns ih =>
      intro hlt
      rw [List.map_cons, List.filterMap_cons_some (hvalue k (hlt k List.mem_cons_self)),
        ih fun m hm => hlt m (List.mem_cons_of_mem _ hm)]
  rw [bufferFrom, String.toList_ofList, List.takeWhile_append_of_pos hdigit, hpads, List.append_nil, Base64.Alphabet.encodeRaw,
    hread _ (Base64.sextets_lt bs), bufferBytes_sextets]

theorem bufferFrom_std (bs : List UInt8) : bufferFrom (String.ofList (Base64.std.encode bs)) = bs :=
  bufferFrom_digits (by decide +kernel) bs (Base64.pads bs)

theorem bufferFrom_url (bs : List UInt8) : bufferFrom (String.ofList (Base64.url.encodeRaw bs)) = bs := by
  have h := bufferFrom_digits (α := Base64.url) (by decide +kernel) bs 0
  rwa [List.replicate_zero, List.append_nil] at h

/-! ## The handler -/

structure TradeEnv where
  authSecret : String

section

variable {d : Doubles} (hmac : List UInt8 → List UInt8 → List UInt8)

/-- Nothing for a signature that is left out. -/
def verifySig (sig : Option Wire) (body : List UInt8) (secret : String) : Option Bool :=
  match sig with
  | some (.str us) => some (bufferFrom (Json.toText us) == hmac (Text.utf8 secret.toList) body)
  | some .null => some false
  | some (.bool _) => some false
  | some (.num _) => some false
  | some (.arr _) => none
  | some (.obj _) => none
  | none => some false

/-- `x != null`. -/
def present (v : Option Wire) : Option Wire :=
  match v with
  | some .null => none
  | some (.bool b) => some (.bool b)
  | some (.num q) => some (.num q)
  | some (.str us) => some (.str us)
  | some (.arr xs) => some (.arr xs)
  | some (.obj ms) => some (.obj ms)
  | none => none

def member (v : Json.Parsed) (key : String) : Option Json.Parsed := v.get? (Json.ofString key)

def truthy (d : Doubles) : Json.Parsed → Bool
  | .null => false
  | .bool b => b
  | .num l => (d.nearest l).all fun x => d.val x != 0
  | .str us => !us.isEmpty
  | .arr _ => true
  | .obj _ => true

/-- `parsed.ts || parsed.key || "ok"`. -/
def ackOf (d : Doubles) (parsed : Json.Parsed) : Json.Parsed :=
  (((member parsed "ts").filter (truthy d)).or ((member parsed "key").filter (truthy d))).getD (.str (Json.ofString "ok"))

structure PlacedOrder where
  market : String
  side : String
  odds : ℚ
  stake : ℚ
  deriving DecidableEq

def asText : Option Json.Parsed → Option String
  | some (.str us) => some (Json.toText us)
  | some .null => none
  | some (.bool _) => none
  | some (.num _) => none
  | some (.arr _) => none
  | some (.obj _) => none
  | none => none

/-- The double of a number; what no double holds is read as infinite, and left out. -/
def asNumber (d : Doubles) : Option Json.Parsed → Option ℚ
  | some (.num l) => (d.nearest l).map d.val
  | some .null => none
  | some (.bool _) => none
  | some (.str _) => none
  | some (.arr _) => none
  | some (.obj _) => none
  | none => none

def readOrder (d : Doubles) (order : Json.Parsed) : Option PlacedOrder := do
  let market ← asText (member order "market")
  let side ← asText (member order "side")
  let odds ← asNumber d (member order "odds")
  let stake ← asNumber d (member order "stake")
  return ⟨market, side, odds, stake⟩

def refusal (status body : String) : Wire := object [("status", text status), ("body", text body)]

inductive Handled where
  | replied (v : Server) (reply : Wire)
  | raised
  | foreign

section

variable (d) (str : Json.Parsed → String) (env : TradeEnv) (v : Server)

def onAuth (sig : Option Wire) (body : List UInt8) : Handled :=
  let parsed := (Json.parse (Text.runes body)).getD
    (.obj [(Json.ofString "ts", .str (Json.ofString (String.ofList (Text.runes body))))])
  match verifySig hmac sig body env.authSecret with
  | none => .foreign
  | some false => .replied v (refusal "error" "bad auth sig")
  | some true =>
    match parsed with
    | .null => .raised
    | parsed =>
      let ackBody := Text.utf8 ("ack " ++ str (ackOf d parsed)).toList
      .replied v (object [("status", text "ok"), ("body", text (String.ofList (Base64.std.encode ackBody))),
        ("sig", text (Live.sign hmac ackBody env.authSecret))])

def onOrder (now : Int) (sig : Option Wire) (body : List UInt8) : Handled :=
  match Json.parse (Text.runes body) with
  | none => .raised
  | some order =>
    match verifySig hmac sig body env.authSecret with
    | none => .foreign
    | some false => .replied v (refusal "rejected" "bad order sig")
    | some true =>
      match order, readOrder d order with
      | .null, _ => .raised
      | _, none => .foreign
      | _, some o =>
        .replied (fill v o.market o.side o.odds o.stake)
          (object [("status", text "filled"), ("order_id", text (idOf v.orderSeq)), ("market", text o.market),
            ("side", text o.side), ("odds", .num o.odds), ("stake", .num o.stake), ("fill_ts", .num now)])

/-- One message, as `JSON.parse` reads it (`none`: it does not). -/
def onMessage (now : Int) (msg : Option Wire) : Handled :=
  match msg with
  | none => .replied v (refusal "error" "bad frame")
  | some .null => .raised
  | some msg =>
    match present (msg.get? (Json.ofString "auth")) with
    | some (.str us) => onAuth d hmac str env v (msg.get? (Json.ofString "sig")) (bufferFrom (Json.toText us))
    | some _ => .foreign
    | none =>
      match present (msg.get? (Json.ofString "body")) with
      | some (.str us) => onOrder d hmac env v now (msg.get? (Json.ofString "sig")) (bufferFrom (Json.toText us))
      | some _ => .foreign
      | none => .replied v (refusal "error" "unknown frame")

end

end

end CasuyaLive.Vendor
