/-
  CasuyaLive.System.ScriptedFeed — the scripted feed, from the vendor to the sink
  (mock-vendor, server.js: `vendorServer`, `publishSettlement`; data-ingestion-go,
  internal/stream/client.go: `Run`, `runSingleConnection`).

  The vendor's connections tick in any order, with orders filled between; other clients may
  be connected too. The ingestor dials, reads what arrives on its connection in order, and
  loses what is still on the way when it breaks.

  (1) `feed_handed`: what is handed on is, for one of its connections after the other, the
      beginning of that connection's script, without a gap, or nothing at all where the
      scope names neither market of the script.
  (2) `one_result`: a connection of the vendor is settled once at most, when it has sent its
      whole script; the settlement that is published and the frame at full time that is
      handed on have the same result, the one of the connection's scenario.
-/

import CasuyaLive.Ingest.Handler
import CasuyaLive.System.Settlements
import CasuyaLive.Vendor.Feed

namespace CasuyaLive.System

open CasuyaLive.Lib CasuyaLive.Execution
open Json (Wire)
open Vendor (Server JsDate Link Scenario rows finalOf fmt)
open Ingest.Stream (Match MatchFrame Market Config Handler ConnEvent parseScope decodeFrame)

/-- A connection of the ingestor: which one of the vendor's, and when its messages were
    read. -/
structure Listened where
  link : Nat
  times : List Int

structure Broadcast where
  vendor : Server
  /-- All connections the vendor had. -/
  links : List Link
  handler : Handler
  /-- Sent to the ingestor, and not read yet. -/
  flight : List Wire
  /-- Not in the source: the ingestor's connections that are over, and the one that is not. -/
  past : List Listened
  current : Option Listened

inductive FeedEvent where
  | fill (market side : String) (odds stake : ℚ)
  /-- Another client connects. -/
  | visited (random : ℚ) (now : JsDate)
  /-- The ingestor does. -/
  | reached (random : ℚ) (now : JsDate)
  | refused
  /-- The interval of a connection; whether the Redis client is ready. -/
  | turn (i : Nat) (now : JsDate) (ready : Bool)
  /-- The vendor sees a socket close. -/
  | gone (i : Nat)
  | read (now : Int)
  | broken
  | elapsed
  | cancelled

def frameOn (l : Link) (r : Vendor.Step × (Int × Int)) : Wire := Vendor.frame r.1 r.2 l.kickoff

def Broadcast.heard (w : Broadcast) : List Listened := w.past ++ w.current.toList

/-- The connection is over. -/
def Broadcast.hungUp (cfg : Config) (w : Broadcast) : Broadcast :=
  { w with handler := w.handler.step cfg .broken, flight := [], past := w.heard, current := none }

section

variable (boot : JsDate) (forced : Option String) (cfg : Config)

def broadcast : Broadcast := ⟨Vendor.start, [], cfg.start, [], [], none⟩

def Broadcast.step (w : Broadcast) : FeedEvent → Broadcast
  | .fill market side odds stake => { w with vendor := Vendor.fill w.vendor market side odds stake }
  | .visited random now => { w with links := w.links ++ [Vendor.connected forced random now] }
  | .reached random now =>
    if w.handler.phase = .dialing then
      { w with links := w.links ++ [Vendor.connected forced random now]
               handler := w.handler.step cfg (.dialed true)
               flight := []
               current := some ⟨w.links.length, []⟩ }
    else w
  | .refused => { w with handler := w.handler.step cfg (.dialed false) }
  | .turn i now ready =>
    match w.links[i]? with
    | none => w
    | some l =>
      { w with vendor := Vendor.settled boot now ready l.turn.2 w.vendor
               links := w.links.set i l.turn.1
               flight := if w.current.map (·.link) = some i then w.flight ++ (l.turn.2.map (frameOn l)).toList else w.flight }
  | .gone i => { w with links := w.links.modify i fun l => { l with timer := false, isOpen := false } }
  | .read now =>
    match w.current, w.flight with
    | some x, frame :: rest =>
      { w with handler := w.handler.step cfg (.message frame now)
               flight := rest
               current := some { x with times := x.times ++ [now] } }
    | _, _ => w
  | .broken => w.hungUp cfg
  | .elapsed => { w with handler := w.handler.step cfg .elapsed }
  | .cancelled => { w with handler := w.handler.step cfg .cancelled }

def Broadcast.run (w : Broadcast) (es : List FeedEvent) : Broadcast := es.foldl (step boot forced cfg) w

end

/-! ## The rows as matches -/

def marketOf (id : String) (o : Vendor.Prices) (updatedAt : Int) : Market := ⟨id, ⟨fmt o.home, fmt o.draw, fmt o.away⟩, updatedAt⟩

def rowFrame (r : Vendor.Step × (Int × Int)) (kickoff : Int) : MatchFrame where
  matchID := "epl-2026-0042"
  sport := "football"
  league := "england_premier_league"
  homeTeam := "Example FC"
  awayTeam := "Casual United"
  kickoff := kickoff
  clock := r.1.clock
  score := ⟨r.2.1, r.2.2⟩
  markets := (Table.empty.set "1H_1X2" (marketOf "1H_1X2" r.1.o1h (kickoff + r.1.step * 60))).set "2H_1X2"
    (marketOf "2H_1X2" r.1.o2h (kickoff + r.1.step * 60))
  shots := r.1.stats.shots
  shotsOnTarget := r.1.stats.shotsOnTarget
  dangerousAttacks := r.1.stats.dangerousAttacks
  possessionHome := fmt r.1.stats.possessionHome

theorem intOr_int (cur : Int) {n : Int} (h : n.natAbs < 2 ^ 63) : Live.intOr cur (.num (n : ℚ)) = some n := by
  rw [Live.intOr, Rat.den_intCast, Rat.num_intCast, if_pos]
  refine ⟨rfl, ?_, ?_⟩ <;> omega

/-- The whole numbers of a row. -/
def wholes (r : Vendor.Step × (Int × Int)) : List Int :=
  [r.1.step, r.2.1, r.2.2, r.1.stats.shots, r.1.stats.shotsOnTarget, r.1.stats.dangerousAttacks]

theorem rows_small {s : Scenario} {r : Vendor.Step × (Int × Int)} (hr : r ∈ rows s) : ∀ n ∈ wholes r, n.natAbs < 1000 := by
  have hall : ∀ s, ∀ r ∈ rows s, ∀ n ∈ wholes r, n.natAbs < 1000 := by
    intro s
    cases s <;> decide +kernel
  exact hall s r hr

theorem decode_market (t : Table String Market) (id : String) (o : Vendor.Prices) {updatedAt : Int}
    (h : updatedAt.natAbs < 2 ^ 63) :
    Ingest.Stream.addMarket t id (Vendor.marketWire id o updatedAt) = some (t.set id (marketOf id o updatedAt)) := by
  have hmarkets := Ingest.Stream.setMarket_spec
  have hodds := Ingest.Stream.setOdds_spec
  simp only [forall_and] at hmarkets hodds
  obtain ⟨hm1, hm2, hm3⟩ := hmarkets
  obtain ⟨ho1, ho2, ho3⟩ := hodds
  simp only [Ingest.Stream.addMarket, Vendor.marketWire, Live.structOr_object, Json.text, List.foldlM_cons, List.foldlM_nil,
    hm1, hm2, hm3, ho1, ho2, ho3, Live.textOr, Live.floatOr, intOr_int _ h, Json.toText_ofString, Option.map_some,
    Option.bind_eq_bind, Option.bind_some]
  rfl

theorem decode_score (s : Ingest.Stream.Score) {home away : Int} (hh : home.natAbs < 2 ^ 63) (ha : away.natAbs < 2 ^ 63) :
    Live.structOr Ingest.Stream.setScore s (Json.object [("home", .num (home : ℚ)), ("away", .num (away : ℚ))]) =
      some ⟨home, away⟩ := by
  have hscores := Ingest.Stream.setScore_spec
  simp only [forall_and] at hscores
  obtain ⟨h1, h2⟩ := hscores
  simp only [Live.structOr_object, List.foldlM_cons, List.foldlM_nil, h1, h2, intOr_int _ hh, intOr_int _ ha, Option.map_some,
    Option.bind_eq_bind, Option.bind_some]
  rfl

theorem decode_frame {s : Scenario} {r : Vendor.Step × (Int × Int)} (hr : r ∈ rows s) {kickoff : Int}
    (hk : kickoff.natAbs < 2 ^ 53) : decodeFrame (Vendor.frame r.1 r.2 kickoff) = some (rowFrame r kickoff) := by
  have hsmall := rows_small hr
  simp only [wholes, List.mem_cons, List.not_mem_nil, or_false, forall_eq_or_imp, forall_eq] at hsmall
  obtain ⟨hstep, hhome, haway, hshots, htarget, hattacks⟩ := hsmall
  have hfields := Ingest.Stream.setFrame_spec
  simp only [forall_and] at hfields
  obtain ⟨h1, h2, h3, h4, h5, h6, h7, h8, h9, h10, h11, h12, h13⟩ := hfields
  have hquoted : (kickoff + r.1.step * 60).natAbs < 2 ^ 63 := by omega
  simp only [decodeFrame, Vendor.frame, Live.structOr_object, Json.text, List.foldlM_cons, List.foldlM_nil, h1, h2, h3, h4, h5, h6,
    h7, h8, h9, h10, h11, h12, h13, Live.textOr, Live.floatOr, Ingest.Stream.marketsOr_object, decode_market _ _ _ hquoted,
    decode_score _ (show r.2.1.natAbs < 2 ^ 63 by omega) (show r.2.2.natAbs < 2 ^ 63 by omega),
    intOr_int _ (show kickoff.natAbs < 2 ^ 63 by omega), intOr_int _ (show r.1.stats.shots.natAbs < 2 ^ 63 by omega),
    intOr_int _ (show r.1.stats.shotsOnTarget.natAbs < 2 ^ 63 by omega),
    intOr_int _ (show r.1.stats.dangerousAttacks.natAbs < 2 ^ 63 by omega), Json.toText_ofString, Option.map_some,
    Option.bind_eq_bind, Option.bind_some]
  rfl

/-- A market of the script is in scope. -/
def Relevant (cfg : Config) : Prop :=
  (parseScope cfg.marketsScope).has "1H_1X2" = true ∨ (parseScope cfg.marketsScope).has "2H_1X2" = true

instance (cfg : Config) : Decidable (Relevant cfg) := inferInstanceAs (Decidable (_ ∨ _))

def matchOf (cfg : Config) (l : Link) (r : Vendor.Step × (Int × Int)) (now : Int) : Match :=
  (rowFrame r l.kickoff).within (parseScope cfg.marketsScope) now

theorem rows_priced {s : Scenario} {r : Vendor.Step × (Int × Int)} (hr : r ∈ rows s) :
    ∀ o ∈ [r.1.o1h, r.1.o2h], 0 < fmt o.home ∧ 0 < fmt o.draw ∧ 0 < fmt o.away := by
  have hall : ∀ s, ∀ r ∈ rows s, ∀ o ∈ [r.1.o1h, r.1.o2h], 0 < fmt o.home ∧ 0 < fmt o.draw ∧ 0 < fmt o.away := by
    intro s
    cases s <;> decide +kernel
  exact hall s r hr

theorem valid_iff {s : Scenario} {r : Vendor.Step × (Int × Int)} (hr : r ∈ rows s) (cfg : Config) (kickoff : Int) :
    Ingest.Stream.Valid (parseScope cfg.marketsScope) (rowFrame r kickoff) ↔ Relevant cfg := by
  have hget : ∀ id, (rowFrame r kickoff).markets.get? id =
      if id = "2H_1X2" then some (marketOf "2H_1X2" r.1.o2h (kickoff + r.1.step * 60))
      else if id = "1H_1X2" then some (marketOf "1H_1X2" r.1.o1h (kickoff + r.1.step * 60)) else none := by
    intro id
    simp only [rowFrame, Table.get?_set, Table.get?_empty]
  have hpriced := rows_priced hr
  refine ⟨fun h => ?_, fun h => ⟨show Text.trimSpace "epl-2026-0042" ≠ "" by decide, ?_, fun id mkt hm _ => ?_⟩⟩
  · obtain ⟨id, mkt, hm, hscope⟩ := h.inScope
    rw [hget] at hm
    split at hm
    · rename_i hid
      exact Or.inr (hid ▸ hscope)
    · split at hm
      · rename_i hid
        exact Or.inl (hid ▸ hscope)
      · cases hm
  · rcases h with h | h
    · exact ⟨"1H_1X2", _, by rw [hget, if_neg (by decide), if_pos rfl], h⟩
    · exact ⟨"2H_1X2", _, by rw [hget, if_pos rfl], h⟩
  · rw [hget] at hm
    split at hm
    · cases hm
      exact hpriced r.1.o2h (by simp)
    · split at hm
      · cases hm
        exact hpriced r.1.o1h (by simp)
      · cases hm

theorem parse_row {l : Link} {r : Vendor.Step × (Int × Int)} (hr : r ∈ rows l.scenario) (hk : l.kickoff.natAbs < 2 ^ 53)
    (cfg : Config) (now : Int) : cfg.parse (frameOn l r) now = if Relevant cfg then some (matchOf cfg l r now) else none := by
  have hvalid := (Ingest.Stream.within_valid_iff (parseScope cfg.marketsScope) (rowFrame r l.kickoff) now).trans
    (valid_iff hr cfg l.kickoff)
  rw [frameOn, cfg.parse_decoded (decode_frame hr hk)]
  simp only [hvalid, matchOf]

/-! ## What is handed on -/

/-- What a connection of the ingestor hands on: the beginning of its script, as far as it was
    read. -/
def aired (cfg : Config) (links : List Link) (x : Listened) : List Match :=
  match links[x.link]? with
  | none => []
  | some l => if Relevant cfg then List.zipWith (matchOf cfg l) (rows l.scenario) x.times else []

/-- What a connection of the vendor has sent. -/
def sent (l : Link) : List Wire := ((rows l.scenario).take l.guard).map (frameOn l)

theorem zipWith_concat {α β γ : Type} (f : α → β → γ) (xs : List α) (ys : List β) (y : β) {x : α} (h : xs[ys.length]? = some x) :
    List.zipWith f xs (ys ++ [y]) = List.zipWith f xs ys ++ [f x y] := by
  induction ys generalizing xs with
  | nil =>
    cases xs with
    | nil => cases h
    | cons z zs =>
      cases h
      simp
  | cons z ys ih =>
    cases xs with
    | nil => cases h
    | cons x' xs =>
      rw [List.cons_append, List.zipWith_cons_cons, List.zipWith_cons_cons, List.cons_append]
      rw [ih xs (by simpa using h)]

/-- The connections of before are there, further on in the same scripts. -/
def Grown (links links' : List Link) : Prop :=
  ∀ (k : Nat) (l : Link), links[k]? = some l →
    ∃ l' : Link, links'[k]? = some l' ∧ l'.scenario = l.scenario ∧ l'.kickoff = l.kickoff ∧ l.guard ≤ l'.guard

theorem grown_append (links : List Link) (l : Link) : Grown links (links ++ [l]) := by
  intro k m hk
  obtain ⟨hlt, -⟩ := List.getElem?_eq_some_iff.mp hk
  exact ⟨m, by rw [List.getElem?_append_left hlt, hk], rfl, rfl, le_refl _⟩

theorem turn_grows (l : Link) : l.turn.1.scenario = l.scenario ∧ l.turn.1.kickoff = l.kickoff ∧ l.guard ≤ l.turn.1.guard := by
  rcases Vendor.turn_cases l with ⟨-, hs, hk, hg⟩ | ⟨r, -, hturn⟩
  · exact ⟨hs, hk, hg.ge⟩
  · rw [hturn]
    exact ⟨rfl, rfl, Nat.le_succ _⟩

theorem grown_set {links : List Link} {i : Nat} {l l' : Link} (hl : links[i]? = some l)
    (h : l'.scenario = l.scenario ∧ l'.kickoff = l.kickoff ∧ l.guard ≤ l'.guard) : Grown links (links.set i l') := by
  intro k m hk
  obtain ⟨hlt, -⟩ := List.getElem?_eq_some_iff.mp hl
  by_cases hki : k = i
  · subst hki
    obtain rfl : l = m := Option.some.inj (hl.symm.trans hk)
    exact ⟨l', List.getElem?_set_self hlt, h⟩
  · exact ⟨m, by rw [List.getElem?_set_ne (Ne.symm hki), hk], rfl, rfl, le_refl _⟩

theorem gone_grows (links : List Link) (i : Nat) :
    Grown links (links.modify i fun l => { l with timer := false, isOpen := false }) := by
  intro k l hk
  rw [List.getElem?_modify, hk]
  refine ⟨_, rfl, ?_⟩
  split <;> exact ⟨rfl, rfl, le_refl _⟩

theorem aired_grown {cfg : Config} {links links' : List Link} (hg : Grown links links') {x : Listened} {l : Link}
    (hl : links[x.link]? = some l) : aired cfg links' x = aired cfg links x := by
  obtain ⟨l', hl', hs, hk, -⟩ := hg x.link l hl
  have hmatch : matchOf cfg l' = matchOf cfg l := by
    funext r now
    rw [matchOf, matchOf, hk]
  simp only [aired, hl, hl', hs, hmatch]

/-- The ingestor's connections against the vendor's. -/
structure Aired (cfg : Config) (w : Broadcast) : Prop where
  dated : ∀ l ∈ w.links, l.kickoff.natAbs < 2 ^ 53
  heard : ∀ x ∈ w.heard, ∃ l, w.links[x.link]? = some l ∧ x.times.length ≤ l.guard
  flight : ∀ x l, w.current = some x → w.links[x.link]? = some l → w.flight = (sent l).drop x.times.length
  reading : w.current.isSome = true ↔ w.handler.phase = .reading
  handed : w.handler.handed = w.heard.flatMap (aired cfg w.links)
  once : (w.heard.map (·.link)).Nodup

variable {cfg : Config} {w : Broadcast}

theorem Broadcast.mem_heard (w : Broadcast) {x : Listened} (hx : w.current = some x) : x ∈ w.heard := by
  rw [Broadcast.heard, hx]
  exact List.mem_append_right _ (List.mem_singleton_self x)

/-- The vendor's side moves on. -/
theorem Aired.relink (h : Aired cfg w) {links : List Link} (hg : Grown w.links links) (hd : ∀ l ∈ links, l.kickoff.natAbs < 2 ^ 53)
    (vendor : Server) (flight : List Wire)
    (hf : ∀ x l, w.current = some x → links[x.link]? = some l → flight = (sent l).drop x.times.length) :
    Aired cfg { w with vendor := vendor, links := links, flight := flight } := by
  refine ⟨hd, fun x hx => ?_, hf, h.reading, ?_, h.once⟩
  · obtain ⟨l, hl, hle⟩ := h.heard x hx
    obtain ⟨l', hl', -, -, hgrow⟩ := hg x.link l hl
    exact ⟨l', hl', by omega⟩
  · refine h.handed.trans (List.flatMap_congr fun x hx => ?_)
    obtain ⟨l, hl, -⟩ := h.heard x hx
    exact (aired_grown hg hl).symm

/-- A dial that fails, a timer and a cancelled context neither begin a connection nor end one. -/
theorem quiet_step (h : Handler) {e : ConnEvent} (he : e ∈ [ConnEvent.dialed false, .elapsed, .cancelled]) :
    ((h.step cfg e).phase = .reading ↔ h.phase = .reading) ∧ (h.step cfg e).handed = h.handed := by
  simp only [List.mem_cons, List.not_mem_nil, or_false] at he
  rcases he with rfl | rfl | rfl
  · by_cases hphase : h.phase = .dialing
    · simp [Handler.step, hphase, Ingest.Stream.failed_phase]
    · simp [Handler.step, hphase]
  · by_cases hphase : h.phase = .waiting <;> simp [Handler.step, hphase]
  · by_cases hphase : h.phase = .waiting <;> simp [Handler.step, hphase]

/-- The loop moves on, without a message. -/
theorem Aired.quiet (h : Aired cfg w) {e : ConnEvent} (he : e ∈ [ConnEvent.dialed false, .elapsed, .cancelled]) :
    Aired cfg { w with handler := w.handler.step cfg e } := by
  obtain ⟨hphase, hhanded⟩ := quiet_step w.handler he
  exact ⟨h.dated, h.heard, h.flight, h.reading.trans hphase.symm, hhanded.trans h.handed, h.once⟩

theorem Aired.idle (h : Aired cfg w) (hphase : w.handler.phase ≠ .reading) : w.current = none := by
  cases hc : w.current with
  | none => rfl
  | some x => exact absurd (h.reading.mp (by rw [hc]; rfl)) hphase

theorem Aired.rows_read (h : Aired cfg w) {x : Listened} (hx : w.current = some x) {frame : Wire} {rest : List Wire}
    (hflight : w.flight = frame :: rest) : ∃ l r, w.links[x.link]? = some l ∧ (rows l.scenario)[x.times.length]? = some r ∧
      frame = frameOn l r ∧ rest = (sent l).drop (x.times.length + 1) ∧ x.times.length + 1 ≤ l.guard := by
  obtain ⟨l, hl, hle⟩ := h.heard x (w.mem_heard hx)
  have hdrop := (h.flight x l hx hl).symm.trans hflight
  have hget : (sent l)[x.times.length]? = some frame := by
    rw [← List.head?_drop, hdrop]
    rfl
  rw [sent, List.getElem?_map, List.getElem?_take] at hget
  split at hget
  · rename_i hlt
    obtain ⟨r, hr, hframe⟩ := Option.map_eq_some_iff.mp hget
    refine ⟨l, r, hl, hr, hframe.symm, ?_, hlt⟩
    rw [← List.tail_drop, hdrop]
    rfl
  · cases hget

theorem connected_dated (forced : Option String) (random : ℚ) (now : JsDate) :
    (Vendor.connected forced random now).kickoff.natAbs < 2 ^ 53 := by
  have hrange := now.inRange
  simp only [Vendor.connected]
  omega

/-- Another connection comes last. -/
theorem Aired.append_dated (h : Aired cfg w) {new : Link} (hnew : new.kickoff.natAbs < 2 ^ 53) :
    ∀ l ∈ w.links ++ [new], l.kickoff.natAbs < 2 ^ 53 := by
  intro l hl
  rcases List.mem_append.mp hl with hl | hl
  · exact h.dated l hl
  · rw [List.mem_singleton.mp hl]
    exact hnew

theorem Aired.visited (h : Aired cfg w) {new : Link} (hnew : new.kickoff.natAbs < 2 ^ 53) :
    Aired cfg { w with links := w.links ++ [new] } := by
  refine h.relink (grown_append w.links new) (h.append_dated hnew) w.vendor w.flight fun x l hx hl => ?_
  obtain ⟨m, hm, -⟩ := h.heard x (w.mem_heard hx)
  obtain ⟨hlt, -⟩ := List.getElem?_eq_some_iff.mp hm
  rw [List.getElem?_append_left hlt] at hl
  exact h.flight x l hx hl

theorem Aired.reached (h : Aired cfg w) (hphase : w.handler.phase = .dialing) {new : Link} (hnew : new.kickoff.natAbs < 2 ^ 53)
    (hstart : new.guard = 0) :
    Aired cfg { w with links := w.links ++ [new]
                       handler := w.handler.step cfg (.dialed true)
                       flight := []
                       current := some ⟨w.links.length, []⟩ } := by
  have hnone := h.idle (by rw [hphase]; decide)
  have hheard : w.heard = w.past := by rw [Broadcast.heard, hnone, Option.toList_none, List.append_nil]
  have hstep : w.handler.step cfg (.dialed true) = { w.handler with phase := .reading } := by
    simp only [Handler.step, hphase, if_true]
  have hlast : (w.links ++ [new])[w.links.length]? = some new := List.getElem?_concat_length
  have hold : ∀ x ∈ w.past, ∃ l, w.links[x.link]? = some l ∧ x.times.length ≤ l.guard := by
    rw [← hheard]
    exact h.heard
  have hnothing : aired cfg (w.links ++ [new]) ⟨w.links.length, []⟩ = [] := by
    simp only [aired, hlast, List.zipWith_nil_right, ite_self]
  refine ⟨h.append_dated hnew, fun x hx => ?_, fun x l hx hl => ?_, ?_, ?_, ?_⟩
  · rcases List.mem_append.mp hx with hx | hx
    · obtain ⟨l, hl, hle⟩ := hold x hx
      obtain ⟨hlt, -⟩ := List.getElem?_eq_some_iff.mp hl
      exact ⟨l, by rw [List.getElem?_append_left hlt, hl], hle⟩
    · rw [List.mem_singleton.mp hx]
      exact ⟨new, hlast, Nat.zero_le _⟩
  · cases hx
    obtain rfl : new = l := Option.some.inj (hlast.symm.trans hl)
    simp [sent, hstart]
  · rw [hstep]
    exact iff_of_true rfl rfl
  · have hhanded := h.handed
    rw [hheard] at hhanded
    show (w.handler.step cfg (.dialed true)).handed = (w.past ++ [_]).flatMap (aired cfg (w.links ++ [new]))
    rw [hstep, List.flatMap_append, List.flatMap_singleton, hnothing, List.append_nil]
    refine hhanded.trans (List.flatMap_congr fun x hx => ?_)
    obtain ⟨l, hl, -⟩ := hold x hx
    exact (aired_grown (grown_append w.links new) hl).symm
  · have honce := h.once
    rw [hheard] at honce
    show ((w.past ++ [_]).map Listened.link).Nodup
    rw [List.map_append, List.nodup_append]
    refine ⟨honce, List.nodup_singleton _, fun a ha b hb => ?_⟩
    obtain ⟨x, hx, rfl⟩ := List.mem_map.mp ha
    obtain ⟨l, hl, -⟩ := hold x hx
    obtain ⟨hlt, -⟩ := List.getElem?_eq_some_iff.mp hl
    obtain rfl : b = w.links.length := by simpa using hb
    omega

/-- The interval of a connection: one more frame at the end of what it has sent, or none. -/
theorem turn_sent (l : Link) : sent l.turn.1 = sent l ++ (l.turn.2.map (frameOn l)).toList := by
  rcases Vendor.turn_cases l with ⟨hnone, hs, hk, hg⟩ | ⟨r, hr, hturn⟩
  · have hframe : frameOn l.turn.1 = frameOn l := by
      funext r
      rw [frameOn, frameOn, hk]
    rw [sent, hs, hg, hframe, hnone]
    simp [sent]
  · have hframe : frameOn { l with guard := l.guard + 1 } = frameOn l := rfl
    rw [hturn, sent, hframe]
    simp [sent, List.take_add_one, hr]

theorem turn_unread {l : Link} {n : Nat} (hn : n ≤ l.guard) :
    (sent l.turn.1).drop n = (sent l).drop n ++ (l.turn.2.map (frameOn l)).toList := by
  rw [turn_sent]
  rcases Vendor.turn_cases l with ⟨hnone, -⟩ | ⟨r, hr, -⟩
  · rw [hnone]
    simp
  · obtain ⟨hlt, -⟩ := List.getElem?_eq_some_iff.mp hr
    refine List.drop_append_of_le_length ?_
    rw [sent, List.length_map, List.length_take]
    omega

theorem Aired.turned (h : Aired cfg w) {i : Nat} {l : Link} (hl : w.links[i]? = some l) (vendor : Server) :
    Aired cfg { w with vendor := vendor
                       links := w.links.set i l.turn.1
                       flight := if w.current.map (·.link) = some i then w.flight ++ (l.turn.2.map (frameOn l)).toList
                         else w.flight } := by
  obtain ⟨hlt, -⟩ := List.getElem?_eq_some_iff.mp hl
  refine h.relink (grown_set hl (turn_grows l)) (fun m hm => ?_) vendor _ fun x m hx hm => ?_
  · rcases List.mem_or_eq_of_mem_set hm with hm | hm
    · exact h.dated m hm
    · rw [hm, (turn_grows l).2.1]
      exact h.dated l (List.mem_of_getElem? hl)
  · rw [hx, Option.map_some]
    obtain ⟨m', hm', hle⟩ := h.heard x (w.mem_heard hx)
    by_cases hi : x.link = i
    · subst hi
      obtain rfl : l = m' := Option.some.inj (hl.symm.trans hm')
      rw [List.getElem?_set_self hlt] at hm
      cases hm
      rw [if_pos rfl, h.flight x l hx hl, turn_unread hle]
    · rw [List.getElem?_set_ne (Ne.symm hi)] at hm
      rw [if_neg fun e => hi (Option.some.inj e)]
      exact h.flight x m hx hm

theorem Aired.gone (h : Aired cfg w) (i : Nat) :
    Aired cfg { w with links := w.links.modify i fun l => { l with timer := false, isOpen := false } } := by
  have hget : ∀ (k : Nat) (l' : Link), (w.links.modify i fun l => { l with timer := false, isOpen := false })[k]? = some l' →
      ∃ l, w.links[k]? = some l ∧ l'.scenario = l.scenario ∧ l'.kickoff = l.kickoff ∧ l'.guard = l.guard := by
    intro k l' hk
    rw [List.getElem?_modify] at hk
    obtain ⟨l, hl, rfl⟩ := Option.map_eq_some_iff.mp hk
    refine ⟨l, hl, ?_⟩
    split <;> exact ⟨rfl, rfl, rfl⟩
  refine h.relink (gone_grows w.links i) (fun l' hl' => ?_) w.vendor w.flight fun x l' hx hl' => ?_
  · obtain ⟨k, hk⟩ := List.getElem?_of_mem hl'
    obtain ⟨l, hl, -, hkick, -⟩ := hget k l' hk
    rw [hkick]
    exact h.dated l (List.mem_of_getElem? hl)
  · obtain ⟨l, hl, hs, hk, hg⟩ := hget x.link l' hl'
    have hframe : frameOn l' = frameOn l := by
      funext r
      rw [frameOn, frameOn, hk]
    rw [h.flight x l hx hl, sent, sent, hs, hg, hframe]

theorem Aired.read (h : Aired cfg w) {x : Listened} (hx : w.current = some x) {frame : Wire} {rest : List Wire}
    (hflight : w.flight = frame :: rest) (now : Int) :
    Aired cfg { w with handler := w.handler.step cfg (.message frame now)
                       flight := rest
                       current := some { x with times := x.times ++ [now] } } := by
  obtain ⟨l, r, hl, hr, rfl, hrest, hle⟩ := h.rows_read hx hflight
  have hreading : w.handler.phase = .reading := h.reading.mp (by rw [hx]; rfl)
  have hparse := parse_row (List.mem_of_getElem? hr) (h.dated l (List.mem_of_getElem? hl)) cfg now
  have hheard : w.heard = w.past ++ [x] := by rw [Broadcast.heard, hx, Option.toList_some]
  have hphase : (w.handler.step cfg (.message (frameOn l r) now)).phase = .reading := by
    simp only [Handler.step, if_pos hreading]
    split <;> exact hreading
  refine ⟨h.dated, fun y hy => ?_, fun y m hy hm => ?_, iff_of_true rfl hphase, ?_, ?_⟩
  · rcases List.mem_append.mp hy with hy | hy
    · exact h.heard y (List.mem_append_left _ hy)
    · rw [List.mem_singleton.mp hy]
      exact ⟨l, hl, by rw [List.length_append]; exact hle⟩
  · cases hy
    obtain rfl : l = m := Option.some.inj (hl.symm.trans hm)
    rw [List.length_append]
    exact hrest
  · have hhanded := h.handed
    rw [hheard, List.flatMap_append, List.flatMap_singleton] at hhanded
    show (w.handler.step cfg (.message (frameOn l r) now)).handed = (w.past ++ [_]).flatMap (aired cfg w.links)
    rw [List.flatMap_append, List.flatMap_singleton]
    simp only [Handler.step, if_pos hreading, hparse, aired, hl]
    by_cases hrel : Relevant cfg
    · simp only [if_pos hrel, zipWith_concat _ _ _ _ hr]
      rw [hhanded]
      simp only [aired, hl, if_pos hrel, List.append_assoc]
    · simp only [if_neg hrel]
      rw [hhanded]
      simp only [aired, hl, if_neg hrel]
  · have honce := h.once
    rw [hheard, List.map_append] at honce
    show ((w.past ++ [_]).map Listened.link).Nodup
    rw [List.map_append]
    exact honce

theorem Aired.broken (h : Aired cfg w) : Aired cfg (w.hungUp cfg) := by
  have hheard : (w.hungUp cfg).heard = w.heard := List.append_nil _
  have hphase : (w.handler.step cfg .broken).phase ≠ .reading := by
    simp only [Handler.step]
    split
    · exact Ingest.Stream.failed_phase _
    · assumption
  have hhanded : (w.handler.step cfg .broken).handed = w.handler.handed := by
    simp only [Handler.step]
    split <;> simp
  refine ⟨h.dated, ?_, fun x l hx => absurd hx (by simp [Broadcast.hungUp]), iff_of_false Bool.false_ne_true hphase, ?_, ?_⟩
  · rw [hheard]
    exact h.heard
  · rw [hheard]
    exact hhanded.trans h.handed
  · rw [hheard]
    exact h.once

theorem step_aired (boot : JsDate) (forced : Option String) (h : Aired cfg w) (e : FeedEvent) :
    Aired cfg (w.step boot forced cfg e) := by
  cases e with
  | fill market side odds stake => exact ⟨h.dated, h.heard, h.flight, h.reading, h.handed, h.once⟩
  | visited random now => exact h.visited (connected_dated forced random now)
  | reached random now =>
    simp only [Broadcast.step]
    split
    · rename_i hphase
      exact h.reached hphase (connected_dated forced random now) rfl
    · exact h
  | refused => exact h.quiet (by simp)
  | turn i now ready =>
    simp only [Broadcast.step]
    split
    · exact h
    · rename_i l hl
      exact h.turned hl _
  | gone i => exact h.gone i
  | read now =>
    simp only [Broadcast.step]
    split
    · rename_i x frame rest hx hflight
      exact h.read hx hflight now
    · exact h
  | broken => exact h.broken
  | elapsed => exact h.quiet (by simp)
  | cancelled => exact h.quiet (by simp)

/-- Scores and totals do not fall from one match to the next. -/
def Rises (m n : Match) : Prop :=
  m.score.home ≤ n.score.home ∧ m.score.away ≤ n.score.away ∧ m.shots ≤ n.shots ∧ m.shotsOnTarget ≤ n.shotsOnTarget ∧
    m.dangerousAttacks ≤ n.dangerousAttacks

theorem aired_rises (cfg : Config) (links : List Link) (x : Listened) : (aired cfg links x).IsChain Rises := by
  unfold aired
  cases links[x.link]? with
  | none => exact List.IsChain.nil
  | some l =>
    simp only
    split
    · refine List.isChain_iff_getElem.mpr fun i hi => ?_
      rw [List.length_zipWith] at hi
      rw [List.getElem_zipWith, List.getElem_zipWith]
      exact List.isChain_iff_getElem.mp (Vendor.rows_rise l.scenario) i (by omega)
    · exact List.IsChain.nil

/-- The beginning of a script for each connection of the ingestor in turn, as far as the vendor
    had sent it. -/
structure Relayed (cfg : Config) (w : Broadcast) : Prop where
  handed : w.handler.handed = w.heard.flatMap (aired cfg w.links)
  heard : ∀ x ∈ w.heard, ∃ l, w.links[x.link]? = some l ∧ x.times.length ≤ l.guard
  once : (w.heard.map (·.link)).Nodup
  rises : ∀ x ∈ w.heard, (aired cfg w.links x).IsChain Rises

theorem run_aired (boot : JsDate) (forced : Option String) (cfg : Config) (es : List FeedEvent) :
    Aired cfg ((broadcast cfg).run boot forced cfg es) := by
  refine fold_inv (Aired cfg) (fun _ e h => step_aired boot forced h e) es ?_
  exact ⟨nofun, nofun, nofun, iff_of_false nofun nofun, rfl, List.nodup_nil⟩

theorem feed_handed (boot : JsDate) (forced : Option String) (cfg : Config) (es : List FeedEvent) :
    Relayed cfg ((broadcast cfg).run boot forced cfg es) := by
  have h := run_aired boot forced cfg es
  exact ⟨h.handed, h.heard, h.once, fun x _ => aired_rises cfg _ x⟩

/-! ## The result -/

/-- The connection has sent its whole script. -/
def Over (l : Link) : Prop := Vendor.template.length ≤ l.guard

/-- A settlement of the connection: after its script, at the result of its scenario. -/
def Awarded (links : List Link) (k : Nat) (p : Vendor.Published) : Prop :=
  ∃ l, links[k]? = some l ∧ Over l ∧
    ∃ st, Live.decodeSettlement p.frame = some st ∧ st.finalScore = ⟨(finalOf l.scenario).1, (finalOf l.scenario).2⟩

/-- Each settlement is that of another connection. -/
def Concluded (links : List Link) (published : List Vendor.Published) : Prop :=
  ∃ xs : List (Nat × Vendor.Published), xs.map (·.2) = published ∧ (xs.map (·.1)).Nodup ∧ ∀ x ∈ xs, Awarded links x.1 x.2

theorem Awarded.grown {links links' : List Link} (hg : Grown links links') {k : Nat} {p : Vendor.Published}
    (h : Awarded links k p) : Awarded links' k p := by
  obtain ⟨l, hl, hover, st, hst, hscore⟩ := h
  obtain ⟨l', hl', hs, -, hgrow⟩ := hg k l hl
  exact ⟨l', hl', le_trans hover hgrow, st, hst, by rw [hs, hscore]⟩

theorem Concluded.grown {links links' : List Link} (hg : Grown links links') {published : List Vendor.Published}
    (h : Concluded links published) : Concluded links' published := by
  obtain ⟨xs, hxs, hnodup, hall⟩ := h
  exact ⟨xs, hxs, hnodup, fun x hx => (hall x hx).grown hg⟩

theorem published_cases (v : Server) (cycle : Int) (score : Live.Score) (ready : Bool) :
    (Vendor.publishSettlement v cycle score ready).published = v.published ∨
      (Vendor.publishSettlement v cycle score ready).published =
        v.published ++ [⟨Vendor.settlementWire cycle score (Vendor.orders v), score⟩] := by
  unfold Vendor.publishSettlement
  split
  · exact Or.inl rfl
  · cases ready
    · exact Or.inl rfl
    · exact Or.inr rfl

/-- A connection settles when it sends its last row, and has not settled before. -/
theorem Concluded.turned {links : List Link} {v : Server} (h : Concluded links v.published) {i : Nat} {l : Link}
    (hl : links[i]? = some l) (boot now : JsDate) (ready : Bool) :
    Concluded (links.set i l.turn.1) (Vendor.settled boot now ready l.turn.2 v).published := by
  have hgrows := grown_set hl (turn_grows l)
  rcases Vendor.turn_cases l with ⟨hnone, -⟩ | ⟨r, hr, hturn⟩
  · rw [hnone]
    exact h.grown hgrows
  · rw [hturn] at hgrows ⊢
    simp only [Vendor.settled]
    split
    · rename_i hclock
      obtain ⟨hguard, hscore⟩ := Vendor.fulltime_row hr hclock
      rcases published_cases v (Vendor.cycleAt boot now) ⟨r.2.1, r.2.2⟩ ready with hp | hp
      · rw [hp]
        exact h.grown hgrows
      · rw [hp]
        obtain ⟨xs, hxs, hnodup, hall⟩ := h
        obtain ⟨hlt, -⟩ := List.getElem?_eq_some_iff.mp hl
        have hnew : i ∉ xs.map (·.1) := by
          intro hi
          obtain ⟨x, hx, rfl⟩ := List.mem_map.mp hi
          obtain ⟨m, hm, hover, -⟩ := hall x hx
          obtain rfl : l = m := Option.some.inj (hl.symm.trans hm)
          have hlast : 15 ≤ l.guard := hover
          omega
        refine ⟨xs ++ [(i, _)], by rw [List.map_append, hxs]; rfl, ?_, fun x hx => ?_⟩
        · rw [List.map_append]
          refine List.nodup_append.mpr ⟨hnodup, List.nodup_singleton _, fun a ha b hb he => ?_⟩
          obtain rfl : b = i := List.mem_singleton.mp hb
          exact hnew (he ▸ ha)
        · rcases List.mem_append.mp hx with hx | hx
          · exact (hall x hx).grown hgrows
          · rw [List.mem_singleton.mp hx]
            refine ⟨_, List.getElem?_set_self hlt, ?_, _, decode_settlementWire boot now _ _, by rw [hscore]⟩
            show 15 ≤ l.guard + 1
            omega
    · exact h.grown hgrows

theorem step_concluded (boot : JsDate) (forced : Option String) (h : Concluded w.links w.vendor.published) (e : FeedEvent) :
    Concluded (w.step boot forced cfg e).links (w.step boot forced cfg e).vendor.published := by
  cases e with
  | visited random now => exact h.grown (grown_append _ _)
  | reached random now =>
    simp only [Broadcast.step]
    split
    · exact h.grown (grown_append _ _)
    · exact h
  | turn i now ready =>
    simp only [Broadcast.step]
    split
    · exact h
    · rename_i l hl
      exact h.turned hl boot now ready
  | gone i => exact h.grown (gone_grows _ _)
  | read now =>
    simp only [Broadcast.step]
    split <;> exact h
  | fill market side odds stake => exact h
  | refused => exact h
  | broken => exact h
  | elapsed => exact h
  | cancelled => exact h

/-- The settlements of the vendor's connections, and the frames at full time. -/
structure OneResult (w : Broadcast) : Prop where
  settled : Concluded w.links w.vendor.published
  fulltime : ∀ m ∈ w.handler.handed, m.clock = "FULLTIME" →
    ∃ x ∈ w.heard, ∃ l, w.links[x.link]? = some l ∧ Over l ∧ m.score = ⟨(finalOf l.scenario).1, (finalOf l.scenario).2⟩

theorem one_result (boot : JsDate) (forced : Option String) (cfg : Config) (es : List FeedEvent) :
    OneResult ((broadcast cfg).run boot forced cfg es) := by
  have hconcluded : Concluded ((broadcast cfg).run boot forced cfg es).links
      ((broadcast cfg).run boot forced cfg es).vendor.published := by
    refine fold_inv (fun w : Broadcast => Concluded w.links w.vendor.published) (fun _ e h => ?_) es ?_
    · exact step_concluded boot forced h e
    · exact ⟨[], rfl, List.nodup_nil, nofun⟩
  have haired := run_aired boot forced cfg es
  generalize (broadcast cfg).run boot forced cfg es = w at hconcluded haired
  refine ⟨hconcluded, fun m hm hclock => ?_⟩
  rw [haired.handed] at hm
  obtain ⟨x, hx, hm⟩ := List.mem_flatMap.mp hm
  obtain ⟨l, hl, hread⟩ := haired.heard x hx
  simp only [aired, hl] at hm
  split at hm
  · obtain ⟨i, hi, rfl⟩ := List.getElem_of_mem hm
    rw [List.length_zipWith] at hi
    rw [List.getElem_zipWith] at hclock ⊢
    have hlt : i < (rows l.scenario).length := by omega
    have hrow : (rows l.scenario)[i]? = some (rows l.scenario)[i] := List.getElem?_eq_getElem hlt
    obtain ⟨hlast, hscore⟩ := Vendor.fulltime_row hrow hclock
    refine ⟨x, hx, l, hl, ?_, ?_⟩
    · show 15 ≤ l.guard
      omega
    · rw [← hscore]
      rfl
  · cases hm

end CasuyaLive.System
