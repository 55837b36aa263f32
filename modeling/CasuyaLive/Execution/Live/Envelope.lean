/-
  CasuyaLive.Execution.Live.Envelope — the executor's end of a signed command
  (execution-engine-go, internal/broker/client.go: `decodeEnvelope`, `verifyHMAC`).

  `decodeString` is `base64.RawURLEncoding.DecodeString`: line breaks are skipped, the last
  bits need not be zero. `unmarshal` is `json.Unmarshal` into the payload's struct: a field
  goes by its name in any case, the last one of a name counts, null leaves a field as it is,
  and a value of another type fails.
-/

import CasuyaLive.Lib.Base64
import CasuyaLive.Lib.Json

namespace CasuyaLive.Execution.Live

open CasuyaLive.Lib

structure ExecutionPayload (d : Doubles) where
  matchID : String
  marketID : String
  side : String
  odds : d.F
  trueProb : d.F
  implied : d.F
  amount : d.F
  timestamp : Int

inductive EnvelopeError where
  | malformed
  | base64
  | signature
  | json
  deriving DecidableEq

variable {d : Doubles}

def ExecutionPayload.empty (d : Doubles) : ExecutionPayload d := ⟨"", "", "", d.zero, d.zero, d.zero, d.zero, 0⟩

/-! ## json.Unmarshal -/

/-- ASCII capitals, and of the long s and the Kelvin sign theirs. -/
def foldRune (c : Char) : Char :=
  if 'a' ≤ c ∧ c ≤ 'z' then Char.ofNat (c.toNat - 32)
  else if c = 'ſ' then 'S'
  else if c = '\u212A' then 'K'
  else c

def named (name key : String) : Bool := name.toList.map foldRune == key.toList.map foldRune

def intoString (cur : String) : Json.Parsed → Option String
  | .null => some cur
  | .bool _ => none
  | .num _ => none
  | .str us => some (Json.toText us)
  | .arr _ => none
  | .obj _ => none

def intoFloat (cur : d.F) : Json.Parsed → Option d.F
  | .null => some cur
  | .bool _ => none
  | .num l => d.nearest l
  | .str _ => none
  | .arr _ => none
  | .obj _ => none

def intoInt (cur : Int) : Json.Parsed → Option Int
  | .null => some cur
  | .bool _ => none
  | .num l => if (Text.atoi (String.ofList l.1)).2 then some (Text.atoi (String.ofList l.1)).1 else none
  | .str _ => none
  | .arr _ => none
  | .obj _ => none

def setField (p : ExecutionPayload d) (key : String) (v : Json.Parsed) : Option (ExecutionPayload d) :=
  if named "match_id" key then (intoString p.matchID v).map fun x => { p with matchID := x }
  else if named "market_id" key then (intoString p.marketID v).map fun x => { p with marketID := x }
  else if named "side" key then (intoString p.side v).map fun x => { p with side := x }
  else if named "odds" key then (intoFloat p.odds v).map fun x => { p with odds := x }
  else if named "true_prob" key then (intoFloat p.trueProb v).map fun x => { p with trueProb := x }
  else if named "implied_prob" key then (intoFloat p.implied v).map fun x => { p with implied := x }
  else if named "amount" key then (intoFloat p.amount v).map fun x => { p with amount := x }
  else if named "ts" key then (intoInt p.timestamp v).map fun x => { p with timestamp := x }
  else some p

def unmarshal (d : Doubles) (body : List UInt8) : Option (ExecutionPayload d) :=
  match Json.parse (Text.runes body) with
  | none => none
  | some .null => some (ExecutionPayload.empty d)
  | some (.bool _) => none
  | some (.num _) => none
  | some (.str _) => none
  | some (.arr _) => none
  | some (.obj fields) => fields.foldlM (fun p f => setField p (Json.toText f.1) f.2) (ExecutionPayload.empty d)

/-! ## The envelope -/

def decodeString (s : String) : Option (List UInt8) := Base64.url.decode (s.toList.filter fun c => c != '\r' && c != '\n')

/-- `strings.SplitN(raw, ".", 2)`, when it has two parts. -/
def splitN (raw : String) : Option (String × String) :=
  if '.' ∈ raw.toList then some (Text.before '.' raw, String.ofList (raw.toList.dropWhile (· != '.')).tail) else none

def verifyHMAC (hmac : List UInt8 → List UInt8 → List UInt8) (body : List UInt8) (sig secret : String) : Bool :=
  decodeString sig == some (hmac (Text.utf8 secret.toList) body)

def decodeEnvelope (d : Doubles) (hmac : List UInt8 → List UInt8 → List UInt8) (raw secret : String) :
    Except EnvelopeError (ExecutionPayload d) :=
  match splitN raw with
  | none => .error .malformed
  | some (encoded, sig) =>
    match decodeString encoded with
    | none => .error .base64
    | some body =>
      if secret ≠ "" ∧ verifyHMAC hmac body sig secret = false then .error .signature
      else
        match unmarshal d body with
        | none => .error .json
        | some p => .ok p

/-! ## What an encoder hands over -/

theorem decodeString_encodeRaw (bytes : List UInt8) :
    decodeString (String.ofList (Base64.url.encodeRaw bytes)) = some bytes := by
  have hplain : ∀ c ∈ Base64.url.encodeRaw bytes, (c != '\r' && c != '\n') = true := by
    intro c hc
    have hp := Base64.url.encodeRaw_plain hc
    simp only [List.mem_cons, not_or] at hp
    simp [hp]
  rw [decodeString, String.toList_ofList, List.filter_eq_self.mpr hplain, Base64.url.decode_encodeRaw]

/-- The first full stop parts the two halves. -/
theorem splitN_append {a : String} (b : String) (h : '.' ∉ a.toList) : splitN (a ++ "." ++ b) = some (a, b) := by
  have hl : (a ++ "." ++ b).toList = a.toList ++ '.' :: b.toList := by simp
  have hne : ∀ c ∈ a.toList, (c != '.') = true := by
    intro c hc
    rw [bne_iff_ne]
    intro heq
    subst heq
    exact h hc
  rw [splitN, if_pos (by rw [hl]; simp), Text.before, hl, List.takeWhile_append_of_pos hne,
    List.dropWhile_append_of_pos hne]
  simp

end CasuyaLive.Execution.Live
