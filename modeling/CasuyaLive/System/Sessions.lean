/-
  CasuyaLive.System.Sessions — one admin session on the relay and in the browser.

  The relay compares whole seconds, the browser milliseconds. `admin_sessions_agree`: for a
  token the relay issued both end at the first millisecond of the second it names, and what
  the relay accepts at all has the shape of one it could have issued. Nothing is assumed of
  the digest but its alphabet.
-/

import CasuyaLive.Dashboard.Session

namespace CasuyaLive.System

open CasuyaLive.Lib CasuyaLive.Relay CasuyaLive.Dashboard

/-- At `t` both ends honour the token issued at `issued` and saved at `saved`, or neither. -/
structure Honoured (node : Node) (env : Env) (b : Browser) (issued saved t : Date) : Prop where
  relay : verifyAdminToken node env t.ms (issueAdminToken node env issued).token = true ↔
    t.ms < 1000 * (issueAdminToken node env issued).expiresAt
  browser : (getSessionToken b (some (saveSessionToken (issueAdminToken node env issued).token
      (issueAdminToken node env issued).expiresAt saved)) t).1 =
    if t.ms < 1000 * (issueAdminToken node env issued).expiresAt then
      some (.str (Json.ofString (issueAdminToken node env issued).token)) else none

theorem issued_ne_empty (node : Node) (env : Env) (issued : Date) : (issueAdminToken node env issued).token ≠ "" := by
  intro h
  have hlist := congrArg String.toList h
  simp [issueAdminToken] at hlist

theorem issued_safe (node : Node) (env : Env) (issued : Date) :
    (issueAdminToken node env issued).expiresAt.natAbs * 1000 ≤ 2 ^ 53 := by
  have hrange := issued.inRange
  simp only [issueAdminToken, adminTokenTTLSeconds]
  omega

/-- A token lives as long in the browser as on the relay, and the relay accepts nothing that
    is not a payload with its digest, an admin's and unexpired. -/
theorem admin_sessions_agree {node : Node} {env : Env} {b : Browser} (hnode : node.Lawful) (hb : b.Lawful)
    (hsecret : env.adminSecret ≠ "") :
    (∀ issued saved t : Date, Honoured node env b issued saved t) ∧
      ∀ (now : Int) (token : String), verifyAdminToken node env now token = true →
        ∃ payload sig, token = payload ++ "." ++ sig ∧ sig = node.digest env.adminSecret payload ∧
          ∃ body, Json.parse (node.text payload).toList = some body ∧
            body.get? (Json.ofString "sub") = some (.str (Json.ofString "admin")) ∧
            ∃ exp q, body.get? (Json.ofString "exp") = some (.num exp) ∧ node.nums.value exp = some q ∧
              ((now / 1000 : Int) : ℚ) < q := by
  refine ⟨fun issued saved t => ⟨?_, ?_⟩, fun now token h => verified_shape h⟩
  · exact issued_verifies hnode hsecret issued t.ms
  · exact saved_until hb (issued_ne_empty node env issued) (issued_safe node env issued) saved t

/-! ## A session from the first second on -/

/-- A platform with the digest of the one payload signed here. -/
def oneToken : Node where
  digest := fun _ _ => "3c2OjvimLf5IJmMQFuLBnlh81JCc3VBz8KlTSneKyMU"
  text := fun s => ((Base64.url.decode s.toList).map fun bytes => String.ofList (Text.latin1 bytes)).getD ""
  token := fun _ => ""
  nums := ⟨fun l => some (Text.atoi (String.ofList l.1)).1, fun _ => none, fun _ => .ok none⟩
  prints := fun _ _ => true

def oneBrowser : Browser where
  toNumber := fun x =>
    match x with
    | some (.num l) => some (.finite (Text.atoi (String.ofList l.1)).1)
    | _ => some .nan

theorem atoi_ofInt {n : Int} (h : n.natAbs ≤ 2 ^ 53) : (Text.atoi (String.ofList (Json.Lit.ofInt n).1)).1 = n := by
  have hread : Text.atoi (Text.itoa n) = (n, true) := Text.atoi_itoa (by omega) (by omega)
  rw [Json.Lit.ofInt, String.ofList_toList, hread]

theorem oneToken_lawful : oneToken.Lawful where
  digest_plain := by
    intro _ _
    simp [oneToken]
  text_base64url := by
    intro cs h
    simp only [oneToken, base64url, String.toList_ofList, Base64.Alphabet.decode_encodeRaw, Option.map_some, Option.getD_some]
    rw [Text.latin1_ascii h]
  value_ofInt := by
    intro n h
    simp only [oneToken, atoi_ofInt h]

theorem oneBrowser_lawful : oneBrowser.Lawful where
  toNumber_ofInt := by
    intro n h
    simp only [oneBrowser, atoi_ofInt h]

def withSecret : Env := ⟨"secret", none, none, none, none, none⟩

def lastMoment : Date := ⟨28799999, by decide⟩

def nextMoment : Date := ⟨28800000, by decide⟩

/-- A token issued at the epoch is good for eight hours to the millisecond, on both ends. -/
theorem eight_hours : (issueAdminToken oneToken withSecret ⟨0, by decide⟩).expiresAt = 28800 ∧
    Honoured oneToken withSecret oneBrowser ⟨0, by decide⟩ ⟨0, by decide⟩ lastMoment ∧
      Honoured oneToken withSecret oneBrowser ⟨0, by decide⟩ ⟨0, by decide⟩ nextMoment := by
  have h := (@admin_sessions_agree oneToken withSecret oneBrowser oneToken_lawful oneBrowser_lawful (by decide)).1
  exact ⟨by decide, h _ _ lastMoment, h _ _ nextMoment⟩

end CasuyaLive.System
