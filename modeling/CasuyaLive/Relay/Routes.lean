/-
  CasuyaLive.Relay.Routes — the relay's HTTP routes (web-interface-js, backend/server.js:
  the request listener, `bearerFrom`, `handleTokenIssue`, `handleStats`).

  The routes compare the whole URL, so a query makes another route of it and only the header
  carries a token to the statistics. The platform's share, beside `Node`, is what a value of
  JSON that is no text prints as and how an instant is read.
  `issues_iff`: a token goes out exactly to a request that names the admin's secret.
-/

import CasuyaLive.Relay.Stats
import CasuyaLive.Relay.Tokens

namespace CasuyaLive.Relay

open CasuyaLive.Lib

structure Request where
  url : String
  method : String
  authorization : Option String
  /-- The chunks, put together. -/
  body : String

/-- The answers, with what they carry. -/
inductive Reply where
  /-- 200 with the service's name. -/
  | healthy
  /-- 204 for a preflight. -/
  | preflight
  /-- 200 with a new token. -/
  | issued (token : Issued)
  /-- 200 with the statistics. -/
  | stats (stats : Stats)
  /-- A code, a status and a message. -/
  | refused (code : Nat) (status message : String)
  /-- 500 with the message of what was thrown. -/
  | failed
  /-- 404 -/
  | notFound

structure Platform where
  node : Node
  /-- `String(value)` of what is no text, and none where it throws. -/
  print : Json.Parsed → Option String
  parseDate : String → Option Int

section

variable (pf : Platform) (env : Env)

/-! ## The bearer -/

def isBearer (cs : List Char) : Bool :=
  (cs.take 6).map Text.lowerChar == "bearer".toList && (cs.drop 6).head?.any isJsSpace

/-- The token of the header, or that of the URL. -/
def bearerFrom (q : Request) : String :=
  match q.authorization with
  | some auth =>
    if isBearer auth.toList then Text.trim isJsSpace (String.ofList (auth.toList.drop 7)) else pf.node.token q.url
  | none => pf.node.token q.url

/-! ## Tokens -/

/-- What `||` passes on. -/
def truthyValue : Json.Parsed → Bool
  | .null => false
  | .bool b => b
  | .num l => (pf.node.nums.value l) != some 0
  | .str us => !us.isEmpty
  | .arr _ => true
  | .obj _ => true

def printValue : Json.Parsed → Option String
  | .null => pf.print .null
  | .bool b => pf.print (.bool b)
  | .num l => pf.print (.num l)
  | .str us => some (Json.toText us)
  | .arr xs => pf.print (.arr xs)
  | .obj fields => pf.print (.obj fields)

/-- `String(JSON.parse(body).secret || "")`, and the empty text where that throws. -/
def secretOf (body : String) : String :=
  match (Json.parse body.toList).bind (·.get? (Json.ofString "secret")) with
  | none => ""
  | some x => if truthyValue pf x then (printValue pf x).getD "" else ""

def handleTokenIssue (now : Date) (q : Request) : Reply :=
  if env.adminSecret = "" then .refused 503 "error" "admin tier not configured (ADMIN_SECRET unset)"
  else if secretOf pf q.body = "" ∨ secretOf pf q.body ≠ env.adminSecret then .refused 401 "error" "invalid admin secret"
  else .issued (issueAdminToken pf.node env now)

/-! ## The listener -/

/-- What the statistics come to. -/
def statsReply (now : Date) (r : Stored) : Reply :=
  match handleStats pf.node.nums pf.parseDate env now.ms r with
  | some stats => .stats stats
  | none => .failed

/-- `stored`: what Redis holds, once its client is open. -/
def answer (now : Date) (stored : Option Stored) (q : Request) : Reply :=
  if q.url = "/healthz" then .healthy
  else if q.method = "OPTIONS" then .preflight
  else if q.url = "/api/auth/token" ∧ q.method = "POST" then handleTokenIssue pf env now q
  else if q.url = "/api/stats" ∧ q.method = "GET" then
    match stored with
    | none => .refused 503 "starting" "redis connecting"
    | some r =>
      if verifyAdminToken pf.node env now.ms (bearerFrom pf q) = true then statsReply pf env now r
      else .refused 401 "error" "admin bearer token required"
  else .notFound

/-- A POST for a token that names the admin's secret. -/
structure NamesSecret (q : Request) : Prop where
  url : q.url = "/api/auth/token"
  method : q.method = "POST"
  configured : env.adminSecret ≠ ""
  secret : secretOf pf q.body = env.adminSecret

/-- A request for the statistics. -/
structure AsksStats (q : Request) : Prop where
  url : q.url = "/api/stats"
  method : q.method = "GET"

variable {pf env}

theorem statsReply_not_issued (now : Date) (r : Stored) (i : Issued) : statsReply pf env now r ≠ .issued i := by
  unfold statsReply
  split <;> exact nofun

/-- A token is given out exactly to a request that names the secret. -/
theorem issues_iff {now : Date} {stored : Option Stored} {q : Request} {i : Issued} :
    answer pf env now stored q = .issued i ↔ NamesSecret pf env q ∧ i = issueAdminToken pf.node env now := by
  refine ⟨fun h => ?_, fun h => ?_⟩
  · unfold answer at h
    split at h
    · cases h
    · split at h
      · cases h
      · split at h
        · rename_i hroute
          unfold handleTokenIssue at h
          split at h
          · cases h
          · rename_i hconfigured
            split at h
            · cases h
            · rename_i hsecret
              rw [not_or, not_not] at hsecret
              exact ⟨⟨hroute.1, hroute.2, hconfigured, hsecret.2⟩, (Reply.issued.inj h).symm⟩
        · split at h
          · split at h
            · cases h
            · split at h
              · exact absurd h (statsReply_not_issued _ _ _)
              · cases h
          · cases h
  · obtain ⟨⟨hurl, hmethod, hconfigured, hsecret⟩, rfl⟩ := h
    have hnamed : ¬ (secretOf pf q.body = "" ∨ secretOf pf q.body ≠ env.adminSecret) := by
      rw [hsecret, not_or, not_not]
      exact ⟨hconfigured, rfl⟩
    unfold answer
    rw [if_neg (by rw [hurl]; decide), if_neg (by rw [hmethod]; decide), if_pos ⟨hurl, hmethod⟩, handleTokenIssue,
      if_neg hconfigured, if_neg hnamed]

theorem stats_answer (now : Date) (stored : Option Stored) {q : Request} (h : AsksStats q) :
    answer pf env now stored q =
      match stored with
      | none => .refused 503 "starting" "redis connecting"
      | some r =>
        if verifyAdminToken pf.node env now.ms (bearerFrom pf q) = true then statsReply pf env now r
        else .refused 401 "error" "admin bearer token required" := by
  have hother : ¬ (q.url = "/api/auth/token" ∧ q.method = "POST") := fun hx => absurd (h.url.symm.trans hx.1) (by decide)
  unfold answer
  rw [if_neg (by rw [h.url]; decide), if_neg (by rw [h.method]; decide), if_neg hother, if_pos ⟨h.url, h.method⟩]

end

end CasuyaLive.Relay
