/-
  CasuyaLive.Relay.Tokens — admin tokens (web-interface-js, backend/server.js: `safeEqual`,
  `issueAdminToken`, `verifyAdminToken`).

  A token is base64url of a JSON body, a full stop, and the digest of the first half. Of the
  platform three things are relied on (`Node.Lawful`): a digest is in base64url, what was
  encoded is decoded again, and the literal of an integer that a double holds is its value.

  `issued_verifies`: the token is good until the second it names. `verified_shape`: nothing
  else is, whatever the text.
-/

import Mathlib.Algebra.Order.Round
import CasuyaLive.Lib.Base64
import CasuyaLive.Relay.Server

namespace CasuyaLive.Relay

open CasuyaLive.Lib

/-- What `Date.now()` can answer, in milliseconds. -/
structure Date where
  ms : Int
  inRange : ms.natAbs ≤ 8640000000000000

def adminTokenTTLSeconds : Int := 8 * 3600

def base64url (cs : List Char) : String := String.ofList (Base64.url.encodeRaw (Text.utf8 cs))

structure Issued where
  token : String
  expiresAt : Int

def claims (now : Int) : Json.Parsed :=
  .obj [(Json.ofString "sub", .str (Json.ofString "admin")), (Json.ofString "iat", .num (.ofInt now)),
    (Json.ofString "exp", .num (.ofInt (now + adminTokenTTLSeconds)))]

structure Node.Lawful (node : Node) : Prop where
  digest_plain : ∀ secret text, '.' ∉ (node.digest secret text).toList
  text_base64url : ∀ cs, Json.Ascii cs → node.text (base64url cs) = String.ofList cs
  value_ofInt : ∀ n : Int, n.natAbs ≤ 2 ^ 53 → node.nums.value (.ofInt n) = some (n : ℚ)

section

variable (node : Node) (env : Env)

def issueAdminToken (now : Date) : Issued :=
  let seconds := now.ms / 1000
  let payload := base64url (Json.write (claims seconds))
  let sig := node.digest env.adminSecret payload
  ⟨payload ++ "." ++ sig, seconds + adminTokenTTLSeconds⟩

/-! ## Halves -/

theorem splitOn_stop {payload sig : List Char} (hp : '.' ∉ payload) (hs : '.' ∉ sig) :
    (payload ++ '.' :: sig).splitOn '.' = [payload, sig] := by
  have hintercalate : payload ++ '.' :: sig = ['.'].intercalate [payload, sig] := by
    simp [List.intercalate, List.intersperse]
  rw [hintercalate]
  refine List.splitOn_intercalate '.' ?_ (by simp)
  intro part hpart
  rcases List.mem_cons.mp hpart with rfl | hpart
  · exact hp
  · rw [List.mem_singleton.mp hpart]
    exact hs

/-- A text of two halves is what it was split from. -/
theorem halves {text payload sig : List Char} (h : text.splitOn '.' = [payload, sig]) : text = payload ++ '.' :: sig := by
  have hjoined : ['.'].intercalate (text.splitOn '.') = text := List.intercalate_splitOn '.'
  rw [← hjoined, h]
  simp [List.intercalate, List.intersperse]

theorem base64url_plain (cs : List Char) : '.' ∉ (base64url cs).toList := by
  intro h
  rw [base64url, String.toList_ofList] at h
  exact Base64.url.encodeRaw_plain h (by decide)

variable {node env}

/-- The three tests of a token that has two halves. -/
theorem verify_halves (now : Int) {token : String} {payload sig : List Char} (hne : token ≠ "") (hsecret : env.adminSecret ≠ "")
    (h : token.toList.splitOn '.' = [payload, sig]) :
    verifyAdminToken node env now token =
      (node.digest env.adminSecret (String.ofList payload) == String.ofList sig &&
        (Json.parse (node.text (String.ofList payload)).toList).any (grants node.nums now)) := by
  have hno : (token == "" || env.adminSecret == "") = false := by simp [hne, hsecret]
  rw [verifyAdminToken, hno]
  simp only [Bool.false_eq_true, if_false, h]

theorem claims_sub (seconds : Int) : (claims seconds).get? (Json.ofString "sub") = some (.str (Json.ofString "admin")) := by
  simp [claims, Json.get?, Json.ofString_inj]

theorem claims_exp (seconds : Int) :
    (claims seconds).get? (Json.ofString "exp") = some (.num (.ofInt (seconds + adminTokenTTLSeconds))) := by
  simp [claims, Json.get?]

/-- The body of an issued token grants until its second. -/
theorem claims_grant (hnode : node.Lawful) (now : Int) {seconds : Int} (h : (seconds + adminTokenTTLSeconds).natAbs ≤ 2 ^ 53) :
    grants node.nums now (claims seconds) = true ↔ now / 1000 < seconds + adminTokenTTLSeconds := by
  unfold grants
  simp only [claims_sub, claims_exp, hnode.value_ofInt _ h, beq_self_eq_true, Bool.true_and, Option.any_some,
    decide_eq_true_eq, Int.cast_lt]

/-- The token is accepted until the second it names begins. -/
theorem issued_verifies (hnode : node.Lawful) (hsecret : env.adminSecret ≠ "") (issued : Date) (now : Int) :
    verifyAdminToken node env now (issueAdminToken node env issued).token = true ↔
      now < 1000 * (issueAdminToken node env issued).expiresAt := by
  have hrange := issued.inRange
  have hbody : (issued.ms / 1000 + adminTokenTTLSeconds).natAbs ≤ 2 ^ 53 := by
    unfold adminTokenTTLSeconds
    omega
  have hdecoded : Json.parse (node.text (base64url (Json.write (claims (issued.ms / 1000))))).toList =
      some (claims (issued.ms / 1000)) := by
    rw [hnode.text_base64url _ (Json.write_ascii _), String.toList_ofList, Json.parse_write]
  have hsplit : (issueAdminToken node env issued).token.toList.splitOn '.' =
      [(base64url (Json.write (claims (issued.ms / 1000)))).toList,
        (node.digest env.adminSecret (base64url (Json.write (claims (issued.ms / 1000))))).toList] := by
    have hstop : ".".toList = ['.'] := rfl
    rw [issueAdminToken, String.toList_append, String.toList_append, hstop, List.append_assoc, List.singleton_append]
    exact splitOn_stop (base64url_plain _) (hnode.digest_plain _ _)
  have hne : (issueAdminToken node env issued).token ≠ "" := by
    intro hempty
    rw [hempty] at hsplit
    simp at hsplit
  rw [verify_halves now hne hsecret hsplit, String.ofList_toList, String.ofList_toList, hdecoded, beq_self_eq_true,
    Bool.true_and, Option.any_some, claims_grant hnode now hbody, issueAdminToken]
  -- a second is over before its successor begins
  show now / 1000 < _ ↔ now < 1000 * (issued.ms / 1000 + adminTokenTTLSeconds)
  omega

theorem grants_body {nums : Numbers Json.Lit} {now : Int} {body : Json.Parsed} (h : grants nums now body = true) :
    body.get? (Json.ofString "sub") = some (.str (Json.ofString "admin")) ∧
      ∃ exp q, body.get? (Json.ofString "exp") = some (.num exp) ∧ nums.value exp = some q ∧ ((now / 1000 : Int) : ℚ) < q := by
  unfold grants at h
  split at h
  · rename_i sub exp hsub hexp
    obtain ⟨hadmin, hlater⟩ := Bool.and_eq_true_iff.mp h
    obtain ⟨q, hq, hlt⟩ := (Option.any_eq_true _ _).mp hlater
    exact ⟨by rw [hsub, eq_of_beq hadmin], exp, q, hexp, hq, of_decide_eq_true hlt⟩
  · cases h

/-- What is accepted is a payload and its digest, and the payload decodes to an admin's body
    that has not expired. -/
theorem verified_shape {now : Int} {token : String} (h : verifyAdminToken node env now token = true) :
    ∃ payload sig, token = payload ++ "." ++ sig ∧ sig = node.digest env.adminSecret payload ∧
      ∃ body, Json.parse (node.text payload).toList = some body ∧
        body.get? (Json.ofString "sub") = some (.str (Json.ofString "admin")) ∧
        ∃ exp q, body.get? (Json.ofString "exp") = some (.num exp) ∧ node.nums.value exp = some q ∧
          ((now / 1000 : Int) : ℚ) < q := by
  unfold verifyAdminToken at h
  split at h
  · cases h
  · split at h
    · rename_i payload sig hsplit
      obtain ⟨hdigest, hgrants⟩ := Bool.and_eq_true_iff.mp h
      obtain ⟨body, hbody, hgranted⟩ := (Option.any_eq_true _ _).mp hgrants
      refine ⟨String.ofList payload, String.ofList sig, ?_, (eq_of_beq hdigest).symm, body, hbody, grants_body hgranted⟩
      rw [← String.toList_inj, halves hsplit]
      simp
    · cases h

end

end CasuyaLive.Relay
