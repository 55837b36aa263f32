/-
  CasuyaLive.System.AdminTier — who is shown what the admins are (web-interface-js,
  backend/server.js: the request listener, the upgrade handler, the subscribe callback).

  HTTP requests, upgrades, disconnects and messages come in any order, each with a clock
  reading of its own. A token is given out to a request that names the secret. `Unforged`: a
  text with the digest of its own payload was given out before, which is what the digest is
  trusted for. `admin_tier_guarded`: then the statistics are read exactly for a token of a
  session, given out to somebody who named the secret and not past its eight hours, and a
  frame of any other channel than the public one goes only to sockets that were upgraded
  with such a token.
-/

import Mathlib.Data.List.Induction
import CasuyaLive.Lib.Run
import CasuyaLive.Relay.Routes
import CasuyaLive.System.Sessions

namespace CasuyaLive.System

open CasuyaLive.Lib CasuyaLive.Relay

inductive Happening where
  /-- `stored`: what Redis holds, once its client is open. -/
  | request (q : Relay.Request) (now : Date) (stored : Option Stored)
  | relay (e : Relay.Event)

structure Answered where
  request : Relay.Request
  now : Date
  reply : Relay.Reply

/-- The relay and what it has answered. -/
structure Tier where
  server : Server
  answers : List Answered

section

variable (pf : Platform) (env : Env)

def Tier.step (w : Tier) : Happening → Tier
  | .request q now stored =>
    if w.server.alive then { w with answers := w.answers ++ [⟨q, now, Relay.answer pf env now stored q⟩] } else w
  | .relay e => { w with server := Relay.step pf.node env w.server e }

def Tier.run (w : Tier) (hs : List Happening) : Tier := hs.foldl (Tier.step pf env) w

/-- The token that comes with it. -/
def presented : Happening → String
  | .request q _ _ => bearerFrom pf q
  | .relay (.upgrade url _ _) => pf.node.token url
  | .relay .subscribe => ""
  | .relay (.closing _) => ""
  | .relay (.closed _) => ""
  | .relay (.message _ _ _) => ""

/-- What was given out was asked for with the secret. -/
def Sincere (w : Tier) : Prop :=
  ∀ x ∈ w.answers, ∀ i, x.reply = .issued i → NamesSecret pf env x.request ∧ i = issueAdminToken pf.node env x.now

/-- The token was given out. -/
def GivenOut (w : Tier) (token : String) : Prop := ∃ x ∈ w.answers, ∃ i, x.reply = .issued i ∧ i.token = token

/-- The token was given out to somebody who named the secret, and its time is not over. -/
def Session (w : Tier) (now : Int) (token : String) : Prop :=
  ∃ x ∈ w.answers, ∃ i, x.reply = .issued i ∧ NamesSecret pf env x.request ∧ i.token = token ∧ now < 1000 * i.expiresAt

/-- A text with the digest of its own payload was given out before. -/
def Genuine (w : Tier) (h : Happening) : Prop :=
  ∀ payload, presented pf h = payload ++ "." ++ pf.node.digest env.adminSecret payload → GivenOut w (presented pf h)

def Unforged (w : Tier) (hs : List Happening) : Prop := Meets (Tier.step pf env) (Genuine pf env) w hs

/-- The socket was upgraded with a token of a session. -/
def Opened (w : Tier) (hs : List Happening) (id : Nat) : Prop :=
  ∃ pre url handshake now post, hs = pre ++ .relay (.upgrade url handshake now) :: post ∧
    (w.run pf env pre).server.upgrades = id ∧ Session pf env (w.run pf env pre) now (pf.node.token url)

/-- The statistics are read for a token of a session alone, and the other channels go to
    sockets of a session alone. -/
structure Guarded (w : Tier) (hs : List Happening) : Prop where
  stats : ∀ pre q now stored post, hs = pre ++ .request q now (some stored) :: post →
    (w.run pf env pre).server.alive = true → AsksStats q →
      ∃ reply, (w.run pf env (pre ++ [.request q now (some stored)])).answers = (w.run pf env pre).answers ++ [⟨q, now, reply⟩] ∧
        (reply = statsReply pf env now stored ↔ Session pf env (w.run pf env pre) now.ms (bearerFrom pf q))
  frames : ∀ x ∈ (w.run pf env hs).server.sent, x.frame.type ≠ env.publicChannel → Opened pf env w hs x.socket

variable {pf env}

theorem run_concat (w : Tier) (hs : List Happening) (h : Happening) :
    w.run pf env (hs ++ [h]) = (w.run pf env hs).step pf env h := by
  rw [Tier.run, List.foldl_append]
  rfl

/-! ## Tokens -/

theorem step_sincere {w : Tier} (h : Sincere pf env w) (e : Happening) :
    Sincere pf env (w.step pf env e) := by
  cases e with
  | relay e => exact h
  | request q now stored =>
    simp only [Tier.step]
    split
    · intro x hx i hi
      rcases List.mem_append.mp hx with hx | hx
      · exact h x hx i hi
      · rw [List.mem_singleton.mp hx] at hi ⊢
        exact issues_iff.mp hi
    · exact h

/-- A token is accepted exactly while its session lasts. -/
theorem verified_iff (hnode : pf.node.Lawful) {w : Tier} (hw : Sincere pf env w) {token : String}
    (hgenuine : ∀ payload, token = payload ++ "." ++ pf.node.digest env.adminSecret payload → GivenOut w token) (now : Int) :
    verifyAdminToken pf.node env now token = true ↔ Session pf env w now token := by
  refine ⟨fun h => ?_, fun h => ?_⟩
  · obtain ⟨payload, sig, htoken, hsig, -⟩ := verified_shape h
    obtain ⟨x, hx, i, hi, hgiven⟩ := hgenuine payload (by rw [htoken, hsig])
    obtain ⟨hnamed, rfl⟩ := hw x hx i hi
    rw [← hgiven, issued_verifies hnode hnamed.configured] at h
    exact ⟨x, hx, _, hi, hnamed, hgiven, h⟩
  · obtain ⟨x, hx, i, hi, hnamed, rfl, hlasts⟩ := h
    obtain ⟨-, rfl⟩ := hw x hx i hi
    exact (issued_verifies hnode hnamed.configured x.now now).mpr hlasts

/-! ## Sockets -/

/-- Admin sockets, and the sockets that were sent another channel, are among `A`. -/
structure Among (env : Env) (A : Nat → Prop) (r : Server) : Prop where
  sockets : ∀ s ∈ r.sockets, s.role = .admin → A s.id
  sent : ∀ x ∈ r.sent, x.frame.type ≠ env.publicChannel → A x.socket

variable {A : Nat → Prop} {r : Server}

theorem Among.mono {B : Nat → Prop} (h : Among env A r) (hAB : ∀ id, A id → B id) : Among env B r :=
  ⟨fun s hs hrole => hAB _ (h.sockets s hs hrole), fun x hx hch => hAB _ (h.sent x hx hch)⟩

theorem fanned_among (h : Among env A r) (ch text : String) (now : Int) : Among env A (fannedOut env r ch text now) := by
  refine ⟨h.sockets, fun x hx hch => ?_⟩
  rcases List.mem_append.mp hx with hx | hx
  · exact h.sent x hx hch
  · obtain ⟨s, hs, rfl⟩ := List.mem_map.mp hx
    obtain ⟨hin, hreceives⟩ := List.mem_filter.mp hs
    have hne : (ch == env.publicChannel) = false := beq_eq_false_iff_ne.mpr hch
    rw [receives, hne, Bool.or_false, Bool.and_eq_true] at hreceives
    exact h.sockets s hin (eq_of_beq hreceives.2)

theorem message_among (node : Node) (h : Among env A r) (ch text : String) (now : Int) :
    Among env A (onMessage node env r ch text now) := by
  have hfanned := fanned_among h ch text now
  unfold onMessage
  split
  · exact ⟨fun s hs => (List.not_mem_nil hs).elim, h.sent⟩
  · split
    · split
      · exact ⟨hfanned.sockets, hfanned.sent⟩
      · exact ⟨fun s hs => (List.not_mem_nil hs).elim, hfanned.sent⟩
    · exact ⟨hfanned.sockets, hfanned.sent⟩

theorem deliver_among (node : Node) (ch text : String) (now : Int) (n : Nat) :
    ∀ {r : Server}, Among env A r → Among env A (Relay.deliver node env ch text now n r) := by
  induction n with
  | zero => exact fun h => h
  | succ n ih =>
    intro r h
    unfold Relay.deliver
    split
    · exact ih (message_among node h ch text now)
    · exact h

/-- Only an upgrade brings a socket, and its own token decides the role. -/
theorem relay_among (node : Node) (h : Among env A r) (e : Relay.Event)
    (hup : ∀ url handshake now, e = .upgrade url handshake now → roleOf node env now url = .admin → A r.upgrades) :
    Among env A (Relay.step node env r e) := by
  unfold Relay.step
  split
  · cases e with
    | subscribe => exact ⟨h.sockets, h.sent⟩
    | upgrade url handshake now =>
      simp only [react]
      split
      · refine ⟨fun s hs hrole => ?_, h.sent⟩
        rcases List.mem_append.mp hs with hs | hs
        · exact h.sockets s hs hrole
        · rw [List.mem_singleton.mp hs] at hrole ⊢
          exact hup url handshake now rfl hrole
      · exact ⟨h.sockets, h.sent⟩
    | closing id =>
      refine ⟨fun s hs hrole => ?_, h.sent⟩
      obtain ⟨k, hk, rfl⟩ := List.mem_map.mp hs
      split at hrole
      · rename_i hid
        simp only [if_pos hid]
        exact h.sockets k hk hrole
      · rename_i hid
        simp only [if_neg hid]
        exact h.sockets k hk hrole
    | closed id => exact ⟨fun s hs => h.sockets s (List.mem_filter.mp hs).1, h.sent⟩
    | message ch text now => exact deliver_among node ch text now _ h
  · exact h

/-! ## Every run -/

theorem Opened.concat {w : Tier} {hs : List Happening} {id : Nat} (h : Opened pf env w hs id) (e : Happening) :
    Opened pf env w (hs ++ [e]) id := by
  obtain ⟨pre, url, handshake, now, post, rfl, hid, hsession⟩ := h
  exact ⟨pre, url, handshake, now, post ++ [e], by rw [List.append_assoc, List.cons_append], hid, hsession⟩

theorem run_sincere {w : Tier} (hw : w.answers = []) (hs : List Happening) : Sincere pf env (w.run pf env hs) :=
  Lib.fold_inv (Sincere pf env) (fun _ e h => step_sincere h e) hs (by
    intro x hx
    rw [hw] at hx
    exact (List.not_mem_nil hx).elim)

theorem run_among (hnode : pf.node.Lawful) {w : Tier} (hw : w.answers = []) (hfresh : w.server.sockets = [] ∧ w.server.sent = [])
    (hs : List Happening) (hunforged : Unforged pf env w hs) : Among env (Opened pf env w hs) (w.run pf env hs).server := by
  induction hs using List.reverseRecOn with
  | nil =>
    refine ⟨fun s hs => ?_, fun x hx => ?_⟩
    · rw [Tier.run, List.foldl_nil, hfresh.1] at hs
      exact (List.not_mem_nil hs).elim
    · rw [Tier.run, List.foldl_nil, hfresh.2] at hx
      exact (List.not_mem_nil hx).elim
  | append_singleton hs e ih =>
    obtain ⟨hfront, hlast, -⟩ := meets_append.mp hunforged
    have hbefore := (ih hfront).mono fun id hid => Opened.concat hid e
    rw [run_concat]
    cases e with
    | request q now stored =>
      simp only [Tier.step]
      split <;> exact hbefore
    | relay e =>
      refine relay_among pf.node hbefore e fun url handshake now he hrole => ?_
      subst he
      refine ⟨hs, url, handshake, now, [], rfl, rfl, ?_⟩
      rw [roleOf] at hrole
      split at hrole
      · rename_i hverified
        exact (verified_iff hnode (run_sincere hw hs) hlast now).mp hverified.2
      · cases hrole

/-- What is the admins' is shown to sessions alone. -/
theorem admin_tier_guarded (hnode : pf.node.Lawful) (outcomes : Outcomes) (staleness : Table String Int) (hs : List Happening)
    (hunforged : Unforged pf env ⟨Relay.start outcomes staleness, []⟩ hs) :
    Guarded pf env ⟨Relay.start outcomes staleness, []⟩ hs := by
  refine ⟨?_, (run_among hnode rfl ⟨rfl, rfl⟩ hs hunforged).sent⟩
  intro pre q now stored post hsplit halive hasks
  have hgenuine := meets_iff.mp hunforged pre (.request q now (some stored)) post hsplit
  have hverified := verified_iff hnode (run_sincere (w := ⟨Relay.start outcomes staleness, []⟩) rfl pre) hgenuine now.ms
  refine ⟨Relay.answer pf env now (some stored) q, by rw [run_concat, Tier.step, if_pos halive], ?_⟩
  rw [stats_answer now (some stored) hasks, ← presented, ← hverified, presented]
  simp only
  split
  · rename_i hv
    exact iff_of_true rfl hv
  · rename_i hv
    refine iff_of_false ?_ hv
    unfold statsReply
    split <;> exact nofun

end

/-! ## One session -/

/-- A platform with the digest of the one payload signed here. -/
def onePlatform : Platform where
  node := { oneToken with token := fun url => String.ofList ((url.toList.splitOn '=').getD 1 []) }
  print := fun _ => none
  parseDate := fun _ => none

theorem onePlatform_lawful : onePlatform.node.Lawful :=
  ⟨oneToken_lawful.digest_plain, oneToken_lawful.text_base64url, oneToken_lawful.value_ofInt⟩

def loginTime : Date := ⟨500, by decide⟩

def sessionToken : String := (issueAdminToken onePlatform.node withSecret loginTime).token

def login : Relay.Request := ⟨"/api/auth/token", "POST", none, "\x7b\"secret\":\"secret\"\x7d"⟩

def loggedIn : Answered := ⟨login, loginTime, .issued (issueAdminToken onePlatform.node withSecret loginTime)⟩

def nothingStored : Stored := ⟨Table.empty, none, Table.empty, Table.empty, Table.empty⟩

/-- A login, an upgrade and a request with its token, another upgrade without one, and a
    signed command. -/
def oneSession : List Happening :=
  [.request login loginTime none, .relay .subscribe, .relay .subscribe, .relay .subscribe, .relay .subscribe,
    .relay (.upgrade ("/ws?token=" ++ sessionToken) true 1000),
    .relay (.upgrade "/ws" true 1000),
    .request ⟨"/api/stats", "GET", some ("Bearer " ++ sessionToken), ""⟩ ⟨2000, by decide⟩ (some nothingStored),
    .relay (.message "execution:commands" "signed" 3000)]

def cold : Tier := ⟨Relay.start ⟨0, 0, 0⟩ Table.empty, []⟩

theorem genuine_without {w : Tier} {h : Happening} (hnone : presented onePlatform h = "") : Genuine onePlatform withSecret w h := by
  intro payload hp
  rw [hnone] at hp
  have hlist := congrArg String.toList hp
  simp at hlist

theorem genuine_login {w : Tier} {h : Happening} (hsame : presented onePlatform h = sessionToken) (hin : loggedIn ∈ w.answers) :
    Genuine onePlatform withSecret w h := by
  intro payload _
  rw [hsame]
  exact ⟨loggedIn, hin, _, rfl, rfl⟩

theorem oneSession_unforged : Unforged onePlatform withSecret cold oneSession := by
  have hissued : Relay.answer onePlatform withSecret loginTime none login = .issued (issueAdminToken onePlatform.node withSecret loginTime) :=
    issues_iff.mpr ⟨⟨rfl, rfl, by decide, by decide +kernel⟩, rfl⟩
  have hin : loggedIn ∈ (cold.step onePlatform withSecret (.request login loginTime none)).answers := by
    show loggedIn ∈ [(⟨login, loginTime, Relay.answer onePlatform withSecret loginTime none login⟩ : Answered)]
    rw [hissued]
    exact List.mem_singleton_self _
  exact ⟨genuine_without (by decide +kernel), genuine_without rfl, genuine_without rfl, genuine_without rfl, genuine_without rfl,
    genuine_login (by decide +kernel) hin, genuine_without (by decide +kernel), genuine_login (by decide +kernel) hin,
    genuine_without rfl, trivial⟩

/-- The statistics and the command reach the session, and the other socket gets nothing. -/
theorem one_session_is_guarded : Guarded onePlatform withSecret cold oneSession ∧
    (cold.run onePlatform withSecret oneSession).server.sent.map (·.socket) = [0] :=
  ⟨admin_tier_guarded onePlatform_lawful ⟨0, 0, 0⟩ Table.empty oneSession oneSession_unforged, by decide +kernel⟩

end CasuyaLive.System
