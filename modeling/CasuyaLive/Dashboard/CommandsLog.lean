/-
  CasuyaLive.Dashboard.CommandsLog — the dashboard's view of a signed command
  (web-interface-js, frontend/src/components/CommandsLog.jsx: `decodePayload`,
  `decodeEnvelope`).

  `atob` is the forgiving decoder of the platform: white space goes, up to two pads go from
  a text of whole groups, each byte becomes a character. `atob_padded`: what an encoder left
  unpadded comes back once the alphabet is swapped and the padding restored.
-/

import CasuyaLive.Lib.Base64
import CasuyaLive.Lib.Json

namespace CasuyaLive.Dashboard

open CasuyaLive.Lib

/-! ## atob -/

def isAsciiSpace (c : Char) : Bool := c == '\t' || c == '\n' || c == '\u000C' || c == '\r' || c == ' '

def dropPad (cs : List Char) : List Char := if cs.head? = some '=' then cs.tail else cs

/-- Without the one or two pads at the end. -/
def dropPads (cs : List Char) : List Char := (dropPad (dropPad cs.reverse)).reverse

def atob (cs : List Char) : Option (List Char) :=
  let cs := cs.filter fun c => !isAsciiSpace c
  let cs := if cs.length % 4 = 0 then dropPads cs else cs
  (Base64.std.decode cs).map Text.latin1

/-! ## The payload -/

/-- The characters of base64 in place of those of base64url. -/
def toBase64 (c : Char) : Char := if c = '-' then '+' else if c = '_' then '/' else c

/-- `"=".repeat((4 - (length % 4)) % 4)` after it. -/
def padded (cs : List Char) : List Char := cs ++ List.replicate ((4 - cs.length % 4) % 4) '='

def decodePayload (envelope : String) : Option Json.Parsed :=
  let payloadB64 := (Text.before '.' envelope).toList
  if payloadB64.isEmpty then none
  else (atob (padded (payloadB64.map toBase64))).bind Json.parse

variable (d : Doubles)

def truthy : Json.Parsed → Bool
  | .null => false
  | .bool b => b
  | .num l => (d.nearest l).all fun x => d.val x != 0
  | .str us => !us.isEmpty
  | .arr _ => true
  | .obj _ => true

/-- `cmd?.payload || cmd?.raw || cmd`. -/
def source (cmd : Json.Parsed) : Json.Parsed :=
  ((cmd.get? (Json.ofString "payload")).filter (truthy d)).getD
    (((cmd.get? (Json.ofString "raw")).filter (truthy d)).getD cmd)

def decodeEnvelope (cmd : Json.Parsed) : Option Json.Parsed :=
  match source d cmd with
  | .null => none
  | .bool _ => none
  | .num _ => none
  | .str us => decodePayload (Json.toText us)
  | .arr _ => none
  | .obj _ => none

/-! ## What an encoder hands over -/

theorem dropPad_plain {cs : List Char} (h : '=' ∉ cs) : dropPad cs = cs := by
  unfold dropPad
  apply if_neg
  intro hh
  exact h (List.mem_of_mem_head? hh)

theorem dropPads_pads {cs : List Char} (h : '=' ∉ cs) {n : Nat} (hn : n ≤ 2) :
    dropPads (cs ++ List.replicate n '=') = cs := by
  have hr : '=' ∉ cs.reverse := by simpa using h
  have hpad : ∀ r : List Char, dropPad ('=' :: r) = r := fun r => by simp [dropPad]
  rw [dropPads, List.reverse_append, List.reverse_replicate]
  rcases (show n = 0 ∨ n = 1 ∨ n = 2 by omega) with rfl | rfl | rfl
  · simp only [List.replicate_zero, List.nil_append]
    rw [dropPad_plain hr, dropPad_plain hr, List.reverse_reverse]
  · simp only [List.replicate_succ, List.replicate_zero, List.cons_append, List.nil_append]
    rw [hpad, dropPad_plain hr, List.reverse_reverse]
  · simp only [List.replicate_succ, List.replicate_zero, List.cons_append, List.nil_append]
    rw [hpad, hpad, List.reverse_reverse]

theorem toBase64_url (bytes : List UInt8) :
    (Base64.url.encodeRaw bytes).map toBase64 = Base64.std.encodeRaw bytes := by
  have h : ∀ n < 64, toBase64 (Base64.url.digit n) = Base64.std.digit n := by decide +kernel
  rw [Base64.Alphabet.encodeRaw, Base64.Alphabet.encodeRaw, List.map_map]
  exact List.map_congr_left fun n hn => h n (Base64.sextets_lt bytes n hn)

theorem padded_raw (bytes : List UInt8) : padded (Base64.std.encodeRaw bytes) = Base64.std.encode bytes := by
  have hlen := Base64.std.encodeRaw_length bytes
  have hpads : Base64.pads bytes < 3 := Nat.mod_lt _ (by omega)
  have he : (4 - (Base64.std.encodeRaw bytes).length % 4) % 4 = Base64.pads bytes := by omega
  rw [padded, he, Base64.Alphabet.encode]

theorem atob_encode (bytes : List UInt8) : atob (Base64.std.encode bytes) = some (Text.latin1 bytes) := by
  have hplain : ∀ c ∈ Base64.std.encode bytes, (!isAsciiSpace c) = true := by
    intro c hc
    rcases List.mem_append.mp hc with h | h
    · have hp := Base64.std.encodeRaw_plain h
      simp only [List.mem_cons, not_or] at hp
      simp [isAsciiSpace, hp]
    · rw [List.eq_of_mem_replicate h]
      decide
  have hlen : (Base64.std.encode bytes).length % 4 = 0 := by
    have h := Base64.std.encodeRaw_length bytes
    rw [Base64.Alphabet.encode, List.length_append, List.length_replicate]
    exact h
  have hpads : Base64.pads bytes ≤ 2 := Nat.le_of_lt_succ (Nat.mod_lt _ (by omega))
  have hdrop : dropPads (Base64.std.encode bytes) = Base64.std.encodeRaw bytes :=
    dropPads_pads (fun h => Base64.std.encodeRaw_plain h (by decide)) hpads
  simp only [atob, List.filter_eq_self.mpr hplain, hlen, if_true, hdrop, Base64.std.decode_encodeRaw, Option.map_some]

/-- What an encoder left unpadded is decoded into its characters. -/
theorem atob_padded (bytes : List UInt8) :
    atob (padded ((Base64.url.encodeRaw bytes).map toBase64)) = some (Text.latin1 bytes) := by
  rw [toBase64_url, padded_raw, atob_encode]

end CasuyaLive.Dashboard
