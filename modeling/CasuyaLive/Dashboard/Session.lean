/-
  CasuyaLive.Dashboard.Session — the browser's admin session (web-interface-js,
  frontend/src/lib/session.js: `getSessionToken`, `saveSessionToken`).

  One key of localStorage holds the session's text. Reading it answers a token, or nothing:
  a text that is no JSON stays, a session without a token or past its second is removed.

  `saved_until`: a saved token is read back until its second begins.
-/

import CasuyaLive.Relay.Tokens

namespace CasuyaLive.Dashboard

open CasuyaLive.Lib CasuyaLive.Relay

/-- A number of a script. -/
inductive Number where
  | nan
  | infinite (positive : Bool)
  | finite (q : ℚ)
  deriving DecidableEq

structure Browser where
  /-- The number that a value, or undefined, is turned into; none when that throws. -/
  toNumber : Option Json.Parsed → Option Number

structure Browser.Lawful (b : Browser) : Prop where
  toNumber_ofInt : ∀ n : Int, n.natAbs ≤ 2 ^ 53 → b.toNumber (some (.num (.ofInt n))) = some (.finite n)

/-- `x * 1000 <= now`; the product is exact for what a clock can name. -/
def Number.expired (now : Date) : Number → Bool
  | .nan => false
  | .infinite positive => !positive
  | .finite q => q * 1000 ≤ now.ms

variable (b : Browser)

/-- Whether a condition takes the value for true. -/
def Browser.truthy : Json.Parsed → Bool
  | .null => false
  | .bool x => x
  | .num n => b.toNumber (some (.num n)) != some (.finite 0)
  | .str us => !us.isEmpty
  | .arr _ => true
  | .obj _ => true

/-- The token read, and what is stored then. -/
def getSessionToken (stored : Option String) (now : Date) : Option Json.Parsed × Option String :=
  match stored.filter (· != "") with
  | none => (none, stored)
  | some raw =>
    match Json.parse raw.toList with
    | none => (none, stored)
    | some session =>
      match (session.get? (Json.ofString "token")).filter b.truthy with
      | none => (none, none)
      | some token =>
        match b.toNumber (session.get? (Json.ofString "expires_at")) with
        | none => (none, stored)
        | some expiresAt => if expiresAt.expired now then (none, none) else (some token, stored)

def sessionOf (token : String) (expiresAt : Int) (now : Date) : Json.Parsed :=
  .obj [(Json.ofString "token", .str (Json.ofString token)), (Json.ofString "expires_at", .num (.ofInt expiresAt)),
    (Json.ofString "saved_at", .num (.ofInt now.ms))]

/-- The text stored. -/
def saveSessionToken (token : String) (expiresAt : Int) (now : Date) : String :=
  String.ofList (Json.write (sessionOf token expiresAt now))

variable {b}

theorem expired_iff (now : Date) (n : Int) : (Number.finite n).expired now = true ↔ 1000 * n ≤ now.ms := by
  have hcast : ((n : ℚ) * 1000 ≤ now.ms) ↔ 1000 * n ≤ now.ms := by
    rw [mul_comm]
    exact_mod_cast Iff.rfl
  rw [Number.expired, decide_eq_true_eq, hcast]

theorem sessionOf_token (token : String) (expiresAt : Int) (saved : Date) :
    (sessionOf token expiresAt saved).get? (Json.ofString "token") = some (.str (Json.ofString token)) := by
  simp [sessionOf, Json.get?, Json.ofString_inj]

theorem sessionOf_expires (token : String) (expiresAt : Int) (saved : Date) :
    (sessionOf token expiresAt saved).get? (Json.ofString "expires_at") = some (.num (.ofInt expiresAt)) := by
  simp [sessionOf, Json.get?, Json.ofString_inj]

theorem saved_raw (token : String) (expiresAt : Int) (saved : Date) :
    (some (saveSessionToken token expiresAt saved)).filter (· != "") = some (saveSessionToken token expiresAt saved) := by
  rw [Option.filter_some, if_pos]
  rw [bne_iff_ne, saveSessionToken, ne_eq, ← String.toList_inj, String.toList_ofList]
  simp [sessionOf, Json.write]

theorem truthy_token {token : String} (hne : token ≠ "") : b.truthy (.str (Json.ofString token)) = true := by
  rw [Browser.truthy, Bool.not_eq_true', ← Bool.not_eq_true, List.isEmpty_iff]
  intro h
  have htext := Json.toText_ofString token
  rw [h] at htext
  exact hne htext.symm

/-- A saved token is read back until its second begins, and is gone then. -/
theorem saved_until (hb : b.Lawful) {token : String} (hne : token ≠ "") {expiresAt : Int}
    (hsafe : expiresAt.natAbs * 1000 ≤ 2 ^ 53) (saved now : Date) :
    (getSessionToken b (some (saveSessionToken token expiresAt saved)) now).1 =
      if now.ms < 1000 * expiresAt then some (.str (Json.ofString token)) else none := by
  have hparsed : Json.parse (saveSessionToken token expiresAt saved).toList = some (sessionOf token expiresAt saved) := by
    rw [saveSessionToken, String.toList_ofList, Json.parse_write]
  have hnumber : b.toNumber (some (.num (.ofInt expiresAt))) = some (.finite expiresAt) := hb.toNumber_ofInt _ (by omega)
  have htoken : ((sessionOf token expiresAt saved).get? (Json.ofString "token")).filter b.truthy =
      some (.str (Json.ofString token)) := by
    rw [sessionOf_token, Option.filter_some, if_pos (truthy_token hne)]
  have hexpired := expired_iff now expiresAt
  simp only [getSessionToken, saved_raw, hparsed, htoken, sessionOf_expires, hnumber]
  by_cases h : now.ms < 1000 * expiresAt
  · have hno : ¬ (Number.finite expiresAt).expired now = true := by
      rw [hexpired]
      omega
    rw [if_neg hno, if_pos h]
  · have hyes : (Number.finite expiresAt).expired now = true := by
      rw [hexpired]
      omega
    rw [if_pos hyes, if_neg h]

end CasuyaLive.Dashboard
