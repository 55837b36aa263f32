/-
  CasuyaLive.System.Envelopes — a signed command from the analytics engine to the executor
  and to the dashboard.

  `envelope_round_trip`: the envelope of a verdict parts at its first full stop into the
  body and the signature, the executor accepts it under the same key and reads the payload's
  fields, and the dashboard reads the same ones. Nothing is assumed of the digest; of the
  doubles, that a printed one is read back and that whole milliseconds are (`Lawful`).
-/

import CasuyaLive.Analytics.Envelope
import CasuyaLive.Dashboard.CommandsLog
import CasuyaLive.Execution.Live.Envelope

namespace CasuyaLive.System

open CasuyaLive.Lib CasuyaLive.Analytics CasuyaLive.Execution.Live CasuyaLive.Dashboard

section

variable {d : Doubles} (hmac : Hmac) (v : FloatVerdict d) (amount : d.F) (ts : Clock) (key : String)

/-- What the executor should read. -/
def ordered : ExecutionPayload d :=
  ⟨v.matchID, v.marketID, v.side, v.odds, v.trueProb, v.impliedProb, amount, ts.ms⟩

/-- The number of a field, as a script sees it. -/
def numberAt (d : Doubles) (w : Json.Parsed) (key : String) : Option d.F :=
  match w.get? (Json.ofString key) with
  | some (.num l) => d.nearest l
  | some .null => none
  | some (.bool _) => none
  | some (.str _) => none
  | some (.arr _) => none
  | some (.obj _) => none
  | none => none

/-- What the dashboard should show. -/
structure Shows (w : Json.Parsed) : Prop where
  matchID : w.get? (Json.ofString "match_id") = some (.str (Json.ofString v.matchID))
  marketID : w.get? (Json.ofString "market_id") = some (.str (Json.ofString v.marketID))
  side : w.get? (Json.ofString "side") = some (.str (Json.ofString v.side))
  odds : numberAt d w "odds" = some v.odds
  trueProb : numberAt d w "true_prob" = some v.trueProb
  impliedProb : numberAt d w "implied_prob" = some v.impliedProb
  amount : numberAt d w "amount" = some amount
  ts : (numberAt d w "ts").map d.val = some (ts.ms : ℚ)

/-! ## The body -/

/-- The bytes that are signed and encoded. -/
def body : List UInt8 := Text.utf8 (dumps (v.payload amount ts.ms))

theorem toSignedPayload_eq : v.toSignedPayload hmac amount ts key =
    String.ofList (Base64.url.encodeRaw (body v amount ts)) ++ "." ++
      String.ofList (Base64.url.encodeRaw (hmac (Text.utf8 key.toList) (body v amount ts))) := by
  rw [FloatVerdict.toSignedPayload, signPayload, urlsafe_eq, urlsafe_eq, body]

theorem dumps_ascii : Json.Ascii (dumps (v.payload amount ts.ms)) := by
  rw [dumps_payload]
  exact Json.write_ascii _

theorem parse_dumps : Json.parse (dumps (v.payload amount ts.ms)) = some (.obj (v.members amount ts.ms)) := by
  rw [dumps_payload, Json.parse_write]

theorem encodeRaw_no_stop (bytes : List UInt8) : '.' ∉ (String.ofList (Base64.url.encodeRaw bytes)).toList := by
  rw [String.toList_ofList]
  exact fun h => Base64.url.encodeRaw_plain h (by decide)

/-! ## The executor -/

variable {v amount ts}

theorem clock_int64 (ts : Clock) : Text.atoi (String.ofList (Json.Lit.ofInt ts.ms).1) = (ts.ms, true) := by
  have h := ts.inRange
  show Text.atoi (String.ofList (Text.itoa ts.ms).toList) = _
  rw [String.ofList_toList, Text.atoi_itoa (by omega) (by omega)]

theorem setField_spec (p : ExecutionPayload d) (x : Json.Parsed) :
    setField p "amount" x = (intoFloat p.amount x).map (fun y => { p with amount := y }) ∧
    setField p "implied_prob" x = (intoFloat p.implied x).map (fun y => { p with implied := y }) ∧
    setField p "market_id" x = (intoString p.marketID x).map (fun y => { p with marketID := y }) ∧
    setField p "match_id" x = (intoString p.matchID x).map (fun y => { p with matchID := y }) ∧
    setField p "odds" x = (intoFloat p.odds x).map (fun y => { p with odds := y }) ∧
    setField p "side" x = (intoString p.side x).map (fun y => { p with side := y }) ∧
    setField p "true_prob" x = (intoFloat p.trueProb x).map (fun y => { p with trueProb := y }) ∧
    setField p "ts" x = (intoInt p.timestamp x).map (fun y => { p with timestamp := y }) :=
  ⟨rfl, rfl, rfl, rfl, rfl, rfl, rfl, rfl⟩

theorem unmarshal_body (hd : d.Lawful) : unmarshal d (body v amount ts) = some (ordered v amount ts) := by
  have hfields := @setField_spec d
  simp only [forall_and] at hfields
  obtain ⟨h1, h2, h3, h4, h5, h6, h7, h8⟩ := hfields
  rw [unmarshal, body, Text.runes_ascii (dumps_ascii v amount ts), parse_dumps]
  simp only [FloatVerdict.members, List.foldlM_cons, List.foldlM_nil, Json.toText_ofString, h1, h2, h3, h4, h5, h6, h7, h8,
    intoFloat, intoString, intoInt, hd.nearest_repr, clock_int64, if_true, Option.map_some, Option.bind_eq_bind,
    Option.bind_some]
  rfl

/-! ## The dashboard -/

theorem decodePayload_envelope (key : String) : decodePayload (v.toSignedPayload hmac amount ts key) =
    some (.obj (v.members amount ts.ms)) := by
  have hstop : ∀ c ∈ Base64.url.encodeRaw (body v amount ts), (c != '.') = true := by
    intro c hc
    rw [bne_iff_ne]
    intro heq
    subst heq
    exact Base64.url.encodeRaw_plain hc (by decide)
  have hbefore : (Text.before '.' (v.toSignedPayload hmac amount ts key)).toList =
      Base64.url.encodeRaw (body v amount ts) := by
    rw [toSignedPayload_eq, Text.before, String.toList_ofList, String.toList_append, String.toList_append,
      String.toList_ofList, List.append_assoc, List.takeWhile_append_of_pos hstop]
    simp
  have hsome : (Base64.url.encodeRaw (body v amount ts)).isEmpty = false := by
    obtain ⟨c, cs, he, -⟩ := Json.write_head (.obj (v.members amount ts.ms))
    rw [Base64.Alphabet.encodeRaw_isEmpty, body, Text.utf8_ascii (dumps_ascii v amount ts), List.isEmpty_map, dumps_payload,
      he]
    rfl
  rw [decodePayload]
  simp only [hbefore, hsome, Bool.false_eq_true, if_false, atob_padded, Option.bind_some]
  rw [body, Text.latin1_ascii (dumps_ascii v amount ts), parse_dumps]

/-- The relay wraps what is no JSON of its own. -/
theorem decodeEnvelope_raw (d : Doubles) {envelope : String} (h : envelope ≠ "") :
    Dashboard.decodeEnvelope d (.obj [(Json.ofString "raw", .str (Json.ofString envelope))]) = decodePayload envelope := by
  have hsome : (Json.ofString envelope).isEmpty = false := by
    by_contra he
    rw [Bool.not_eq_false, List.isEmpty_iff] at he
    have hback := Json.toText_ofString envelope
    rw [he] at hback
    exact h hback.symm
  have hsource : source d (.obj [(Json.ofString "raw", .str (Json.ofString envelope))]) = .str (Json.ofString envelope) := by
    have htruthy : truthy d (.str (Json.ofString envelope)) = true := by rw [truthy, hsome]; rfl
    simp [source, Json.get?, Json.ofString_inj, Option.filter, htruthy]
  rw [Dashboard.decodeEnvelope, hsource]
  simp only [Json.toText_ofString]

theorem members_show (hd : d.Lawful) : Shows v amount ts (.obj (v.members amount ts.ms)) := by
  obtain ⟨x, hx, hval⟩ := hd.nearest_ofInt ts.ms (by have := ts.inRange; omega)
  refine ⟨?_, ?_, ?_, ?_, ?_, ?_, ?_, ?_⟩
  all_goals simp [numberAt, Json.get?, FloatVerdict.members, List.find?, Json.ofString_inj, hd.nearest_repr, hx, hval]

variable (v amount ts)

/-- The envelope parts at its first full stop, the executor reads what was signed, and the
    dashboard shows the same, also from the relay's wrapping. -/
theorem envelope_round_trip (hd : d.Lawful) :
    splitN (v.toSignedPayload hmac amount ts key) =
      some (urlsafe (body v amount ts), signPayload hmac (v.payload amount ts.ms) key) ∧
    decodeEnvelope d hmac (v.toSignedPayload hmac amount ts key) key = .ok (ordered v amount ts) ∧
    ∃ w, decodePayload (v.toSignedPayload hmac amount ts key) = some w ∧
      Dashboard.decodeEnvelope d (.obj [(Json.ofString "raw", .str (Json.ofString (v.toSignedPayload hmac amount ts key)))]) =
        some w ∧ Shows v amount ts w := by
  have hsplit : splitN (v.toSignedPayload hmac amount ts key) =
      some (urlsafe (body v amount ts), signPayload hmac (v.payload amount ts.ms) key) := by
    rw [urlsafe_eq, signPayload, urlsafe_eq, toSignedPayload_eq]
    exact splitN_append _ (encodeRaw_no_stop _)
  have hpayload := @decodePayload_envelope d hmac v amount ts key
  have hne : v.toSignedPayload hmac amount ts key ≠ "" := by
    intro he
    rw [he] at hsplit
    exact absurd hsplit (by simp [splitN])
  refine ⟨hsplit, ?_, _, hpayload, (decodeEnvelope_raw d hne).trans hpayload, members_show hd⟩
  have hsig : verifyHMAC hmac (body v amount ts) (signPayload hmac (v.payload amount ts.ms) key) key = true := by
    rw [verifyHMAC, signPayload, urlsafe_eq, decodeString_encodeRaw]
    simp [body]
  rw [Execution.Live.decodeEnvelope, hsplit]
  simp only [urlsafe_eq, decodeString_encodeRaw, hsig, unmarshal_body hd]
  simp

end

/-! ## One envelope -/

/-- Literals as their own values, with no rounding. -/
def decimals : Doubles where
  F := Json.Lit
  zero := .ofInt 0
  val l :=
    let (n, whole) := Text.atoi (String.ofList l.1)
    if whole then n else (Text.float (String.ofList l.1)).getD 0
  repr l := l
  nearest l := some l

theorem decimals_lawful : decimals.Lawful := by
  refine ⟨fun l => rfl, ?_⟩
  intro n hn
  refine ⟨.ofInt n, rfl, ?_⟩
  have h : Text.atoi (String.ofList (Json.Lit.ofInt n).1) = (n, true) := by
    show Text.atoi (String.ofList (Text.itoa n).toList) = _
    rw [String.ofList_toList, Text.atoi_itoa (by omega) (by omega)]
  simp only [decimals, h, if_true]

/-- The digest of the payload below under the key "secret". -/
def digest : List UInt8 :=
  [17, 4, 171, 76, 68, 104, 152, 228, 188, 82, 0, 46, 61, 223, 79, 111, 54, 14, 237, 159, 196, 120, 118, 31, 221, 58, 25,
    120, 19, 206, 5, 87]

def homeVerdict : FloatVerdict decimals :=
  ⟨"hb-7 München", "1X2", "home", ⟨"5.0".toList, by decide⟩, ⟨"0.2".toList, by decide⟩, ⟨"0.25".toList, by decide⟩⟩

theorem a_home_bet_goes_through :
    let raw := homeVerdict.toSignedPayload (fun _ _ => digest) ⟨"25.0".toList, by decide⟩ ⟨1700000000000, by decide⟩ "secret"
    decodeEnvelope decimals (fun _ _ => digest) raw "secret" =
      .ok (ordered homeVerdict ⟨"25.0".toList, by decide⟩ ⟨1700000000000, by decide⟩) ∧
    ∃ w, decodePayload raw = some w ∧ Shows homeVerdict ⟨"25.0".toList, by decide⟩ ⟨1700000000000, by decide⟩ w := by
  obtain ⟨-, hordered, w, hpayload, -, hshows⟩ := envelope_round_trip (fun _ _ => digest) homeVerdict
    ⟨"25.0".toList, by decide⟩ ⟨1700000000000, by decide⟩ "secret" decimals_lawful
  exact ⟨hordered, w, hpayload, hshows⟩

end CasuyaLive.System
