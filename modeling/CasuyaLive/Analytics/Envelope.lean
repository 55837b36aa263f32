/-
  CasuyaLive.Analytics.Envelope — the signed payload of a verdict (analytics-engine-py,
  src/filter_engine.py: `Verdict.to_signed_payload`, `sign_payload`).

  HMAC-SHA256 is a parameter, and so is how a double is printed. `dumps_payload`: the
  canonical text has its members in the order of their keys; `urlsafe_eq`: of the encoding
  only padding is stripped.
-/

import Mathlib.Data.List.Sort
import CasuyaLive.Lib.Base64
import CasuyaLive.Lib.Json

namespace CasuyaLive.Analytics

open CasuyaLive.Lib

/-- The digest of a message under a key. -/
abbrev Hmac := List UInt8 → List UInt8 → List UInt8

/-- The fields of a verdict that the payload carries, its numbers as the floats they are. -/
structure FloatVerdict (d : Doubles) where
  matchID : String
  marketID : String
  side : String
  odds : d.F
  impliedProb : d.F
  trueProb : d.F

/-- Milliseconds of a clock that counts nanoseconds in 64 bits. -/
structure Clock where
  ms : Int
  inRange : ms.natAbs ≤ 9223372036855

/-- `json.dumps` of a dictionary with sorted keys and no white space. -/
def dumps (fields : List (String × Json.Parsed)) : List Char :=
  Json.write (.obj ((fields.insertionSort fun a b => a.1 ≤ b.1).map fun p => (Json.ofString p.1, p.2)))

/-- `urlsafe_b64encode`, without the padding. -/
def urlsafe (bytes : List UInt8) : String := Text.trimRight '=' (String.ofList (Base64.url.encode bytes))

variable {d : Doubles}

def FloatVerdict.payload (v : FloatVerdict d) (amount : d.F) (ts : Int) : List (String × Json.Parsed) :=
  [("match_id", .str (Json.ofString v.matchID)),
   ("market_id", .str (Json.ofString v.marketID)),
   ("side", .str (Json.ofString v.side)),
   ("odds", .num (d.repr v.odds)),
   ("true_prob", .num (d.repr v.trueProb)),
   ("implied_prob", .num (d.repr v.impliedProb)),
   ("amount", .num (d.repr amount)),
   ("ts", .num (.ofInt ts))]

def signPayload (hmac : Hmac) (payload : List (String × Json.Parsed)) (key : String) : String :=
  urlsafe (hmac (Text.utf8 key.toList) (Text.utf8 (dumps payload)))

/-- The stake and the clock are read once. -/
def FloatVerdict.toSignedPayload (hmac : Hmac) (v : FloatVerdict d) (amount : d.F) (ts : Clock) (key : String) : String :=
  let payload := v.payload amount ts.ms
  urlsafe (Text.utf8 (dumps payload)) ++ "." ++ signPayload hmac payload key

/-! ## The text -/

/-- The members in the order of their keys. -/
def FloatVerdict.members (v : FloatVerdict d) (amount : d.F) (ts : Int) : List (Json.Utf16 × Json.Parsed) :=
  [(Json.ofString "amount", .num (d.repr amount)),
   (Json.ofString "implied_prob", .num (d.repr v.impliedProb)),
   (Json.ofString "market_id", .str (Json.ofString v.marketID)),
   (Json.ofString "match_id", .str (Json.ofString v.matchID)),
   (Json.ofString "odds", .num (d.repr v.odds)),
   (Json.ofString "side", .str (Json.ofString v.side)),
   (Json.ofString "true_prob", .num (d.repr v.trueProb)),
   (Json.ofString "ts", .num (.ofInt ts))]

theorem dumps_payload (v : FloatVerdict d) (amount : d.F) (ts : Int) :
    dumps (v.payload amount ts) = Json.write (.obj (v.members amount ts)) := by
  simp [dumps, FloatVerdict.payload, FloatVerdict.members, List.insertionSort, List.orderedInsert]

/-- Only padding is stripped. -/
theorem urlsafe_eq (bytes : List UInt8) : urlsafe bytes = String.ofList (Base64.url.encodeRaw bytes) := by
  have hpad : '=' ∉ Base64.url.encodeRaw bytes := fun h => Base64.url.encodeRaw_plain h (by decide)
  exact Text.trimRight_replicate hpad (Base64.pads bytes)

end CasuyaLive.Analytics
