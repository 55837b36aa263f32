/-
  CasuyaLive.System.PublicPage — the public page behind the relay (data-ingestion-go,
  internal/cache/redis.go: `PublishMatch`; web-interface-js, backend/server.js: the subscribe
  callback; frontend/src/hooks/useWebSockets.js: `onmessage`).

  The relay parses a message and sends it on inside a frame of its own. What a script prints
  of a number is a parameter, nothing where it prints null; the order of an object's members
  is kept, since nobody reads it.

  `public_page`: in every run where the public channel carries published matches, a page with
  a public socket shows the 40 matches it was handed last, each by its last frame, and no
  diagnostics and no PnL. `public_pages_agree`: two runs that differ in other channels only,
  and none of whose messages ends the relay, show the page the same.
-/

import CasuyaLive.Dashboard.Feed
import CasuyaLive.Relay.Roles
import CasuyaLive.System.Published

namespace CasuyaLive.System

open CasuyaLive.Lib CasuyaLive.Relay CasuyaLive.Dashboard CasuyaLive.Ingest.Stream

section

-- the literal that a script prints of a number's literal, none for null
variable (print : Json.Lit → Option Json.Lit)

mutual

/-- `JSON.parse(JSON.stringify(v))`. -/
def restate : Json.Parsed → Json.Parsed
  | .null => .null
  | .bool x => .bool x
  | .num l => ((print l).map Json.num).getD .null
  | .str us => .str us
  | .arr xs => .arr (restateAll xs)
  | .obj fields => .obj (restateMembers fields)

def restateAll : List Json.Parsed → List Json.Parsed
  | [] => []
  | x :: xs => restate x :: restateAll xs

def restateMembers : List (Json.Utf16 × Json.Parsed) → List (Json.Utf16 × Json.Parsed)
  | [] => []
  | (k, x) :: fields => (k, restate x) :: restateMembers fields

end

/-- What a browser reads of a frame. -/
def frameValue (f : Frame) : Json.Parsed :=
  .obj [(Json.ofString "type", .str (Json.ofString f.type)), (Json.ofString "data", restate print f.data),
    (Json.ofString "ts", .num (.ofInt f.ts))]

/-- The frames handed to a public socket. -/
def handed (r : Server) (k : Nat) : List Frame := (r.sent.filter fun x => x.socket == k && x.role == .pub).map (·.frame)

/-- The page behind that socket. -/
def pageOf (b : Browser) (r : Server) (k : Nat) : Feed := ((handed r k).map (frameValue print)).foldl (Feed.onFrame b) Feed.empty

theorem restateMembers_eq (fields : List (Json.Utf16 × Json.Parsed)) :
    restateMembers print fields = fields.map fun f => (f.1, restate print f.2) := by
  induction fields with
  | nil => rw [restateMembers, List.map_nil]
  | cons f fields ih =>
    obtain ⟨k, x⟩ := f
    rw [restateMembers, ih, List.map_cons]

theorem restate_get? (v : Json.Parsed) (key : Json.Utf16) : (restate print v).get? key = (v.get? key).map (restate print) := by
  cases v with
  | null => rw [restate]; rfl
  | bool x => rw [restate]; rfl
  | num l =>
    rw [restate]
    cases print l <;> rfl
  | str us => rw [restate]; rfl
  | arr xs => rw [restate]; rfl
  | obj fields =>
    rw [restate, restateMembers_eq]
    simp only [Json.get?, ← List.map_reverse, List.find?_map, Option.map_map, Function.comp_def]

theorem frame_type (f : Frame) (word : String) : isType word (frameValue print f) = decide (f.type = word) := by
  have hget : (frameValue print f).get? (Json.ofString "type") = some (.str (Json.ofString f.type)) := by
    simp [frameValue, Json.get?, Json.ofString_inj]
  unfold isType
  rw [hget, Bool.eq_iff_iff, decide_eq_true_eq]
  exact beq_iff_eq.trans Json.ofString_inj

theorem frame_data (f : Frame) : (frameValue print f).get? (Json.ofString "data") = some (restate print f.data) := by
  simp [frameValue, Json.get?, Json.ofString_inj]

end

/-! ## What a public socket is handed -/

section

variable (node : Node) (env : Env)

/-- A frame that one of the messages was sent on as, to a public socket only on the public
    channel. -/
structure SentFor (es : List Event) (x : Sent) : Prop where
  message : ∃ text, Event.message x.frame.type text x.frame.ts ∈ es ∧ x.frame.data = Relay.payloadOf text
  channel : x.role = .pub → x.frame.type = env.publicChannel

theorem fanOut_for {r : Server} {ch text : String} {now : Int} {es : List Event} (h : Event.message ch text now ∈ es) {x : Sent}
    (hx : x ∈ fanOut env r ch text now) : SentFor env es x := by
  obtain ⟨k, hk, rfl⟩ := List.mem_map.mp hx
  refine ⟨⟨text, h, rfl⟩, fun hrole => ?_⟩
  have hrole' : k.role = .pub := hrole
  have hreceives := (List.mem_filter.mp hk).2
  simp only [receives, hrole', Bool.and_eq_true, Bool.or_eq_true, beq_iff_eq, reduceCtorEq, false_or] at hreceives
  exact hreceives.2

theorem deliver_for {ch text : String} {now : Int} {es : List Event} (h : Event.message ch text now ∈ es) (n : Nat) :
    ∀ r : Server, ∀ x ∈ (Relay.deliver node env ch text now n r).sent, x ∈ r.sent ∨ SentFor env es x := by
  induction n with
  | zero => exact fun r x hx => Or.inl hx
  | succ n ih =>
    intro r x hx
    unfold Relay.deliver at hx
    split at hx
    · rcases ih _ x hx with hx | hx
      · rcases onMessage_sent node r ch text now with ⟨-, hsent⟩ | ⟨-, hsent⟩
        · rw [hsent] at hx
          exact (List.mem_append.mp hx).imp_right (fanOut_for env h)
        · rw [hsent] at hx
          exact Or.inl hx
      · exact Or.inr hx
    · exact Or.inl hx

theorem step_for {e : Event} {es : List Event} (h : e ∈ es) (r : Server) :
    ∀ x ∈ (step node env r e).sent, x ∈ r.sent ∨ SentFor env es x := by
  intro x hx
  unfold step at hx
  split at hx
  · cases e with
    | message ch text now => exact deliver_for node env h _ r x hx
    | subscribe => exact Or.inl hx
    | upgrade url handshake now => exact Or.inl hx
    | closing id => exact Or.inl hx
    | closed id => exact Or.inl hx
  · exact Or.inl hx

/-- Every frame of a run is one of its messages. -/
theorem run_for (outcomes : Outcomes) (staleness : Table String Int) (es : List Event) :
    ∀ x ∈ (run node env (start outcomes staleness) es).sent, SentFor env es x := by
  have hrun : ∀ (fs : List Event) (r : Server), fs ⊆ es → (∀ x ∈ r.sent, SentFor env es x) →
      ∀ x ∈ (run node env r fs).sent, SentFor env es x := by
    intro fs
    induction fs with
    | nil => exact fun r _ hr => hr
    | cons e fs ih =>
      intro r hsub hr
      refine ih _ (fun f hf => hsub (List.mem_cons_of_mem _ hf)) fun x hx => ?_
      exact (step_for node env (hsub List.mem_cons_self) r x hx).elim (hr x) id
  exact hrun es _ (List.Subset.refl es) nofun

theorem handed_for (outcomes : Outcomes) (staleness : Table String Int) (es : List Event) (k : Nat) :
    ∀ f ∈ handed (run node env (start outcomes staleness) es) k, f.type = env.publicChannel ∧
      ∃ text, Event.message f.type text f.ts ∈ es ∧ f.data = Relay.payloadOf text := by
  intro f hf
  obtain ⟨x, hx, rfl⟩ := List.mem_map.mp hf
  obtain ⟨hx, hrole⟩ := List.mem_filter.mp hx
  rw [Bool.and_eq_true, beq_iff_eq, beq_iff_eq] at hrole
  have hfor := run_for node env outcomes staleness es x hx
  exact ⟨hfor.channel hrole.2, hfor.message⟩

end

/-! ## What the page shows -/

section

variable (print : Json.Lit → Option Json.Lit) (b : Browser) (lit : ℚ → Json.Lit)

/-- A published match as a page reads it. -/
def shownMatch (m : Match) : Json.Parsed := restate print (m.parsed lit)

theorem dataOf_frame (f : Frame) (word : String) :
    dataOf b word (frameValue print f) = if f.type = word then (some (restate print f.data)).filter b.truthy else none := by
  rw [dataOf, frame_type, Browser.field, frame_data]
  by_cases h : f.type = word
  · rw [if_pos h, if_pos (decide_eq_true h)]
  · rw [if_neg h, if_neg (by simp [h])]

theorem shownMatch_id (m : Match) :
    (shownMatch print lit m).get? (Json.ofString "match_id") = some (.str (Json.ofString m.matchID)) := by
  rw [shownMatch, restate_get?, parsed_get?]
  show some (restate print (.str (Json.ofString m.matchID))) = _
  rw [restate]

theorem shownMatch_object (m : Match) : ∃ fields, shownMatch print lit m = .obj fields :=
  ⟨_, by rw [shownMatch, Match.parsed, Json.Quoting.value, restate]⟩

theorem truthy_id {us : Json.Utf16} (h : us ≠ []) : b.truthy (.str us) = true := by
  rw [Browser.truthy, Bool.not_eq_true', ← Bool.not_eq_true, List.isEmpty_iff]
  exact h

theorem ofString_ne_nil {s : String} (h : s ≠ "") : Json.ofString s ≠ [] := by
  intro he
  rw [show ([] : Json.Utf16) = Json.ofString "" from rfl] at he
  exact h (Json.ofString_inj.mp he)

/-- A frame of a published match goes to the grid. -/
theorem namedOf_match {f : Frame} {m : Match} (htype : f.type = "matches:live") (hdata : f.data = m.parsed lit)
    (hid : m.matchID ≠ "") : namedOf b "matches:live" (frameValue print f) = some (shownMatch print lit m) := by
  obtain ⟨fields, hobject⟩ := shownMatch_object print lit m
  have hnamed : (b.field "match_id" (shownMatch print lit m)).isSome = true := by
    rw [Browser.field, shownMatch_id, Option.filter_some, if_pos (truthy_id b (ofString_ne_nil hid))]
    rfl
  rw [namedOf, dataOf_frame, if_pos htype, hdata]
  show ((some (shownMatch print lit m)).filter b.truthy).filter _ = _
  rw [Option.filter_some, if_pos (by rw [hobject]; rfl), Option.filter_some, if_pos hnamed]

theorem sameMatch_shown (m n : Match) : sameMatch b (shownMatch print lit m) (shownMatch print lit n) =
    sameBy (fun m : Match => some m.matchID) m n := by
  have hid : ∀ x : Match, b.idOf "match_id" (shownMatch print lit x) = some (.text (Json.ofString x.matchID)) := by
    intro x
    rw [Browser.idOf, shownMatch_id]
    rfl
  rw [sameMatch, sameBy, sameBy, hid, hid, Bool.eq_iff_iff]
  simp [Json.ofString_inj]

/-- Frames of published matches, one after another. -/
theorem page_of_matches {frames : List Frame} {ms : List Match}
    (h : List.Forall₂ (fun f m => f.type = "matches:live" ∧ f.data = m.parsed lit ∧ m.matchID ≠ "") frames ms) :
    (frames.map (frameValue print)).filterMap (namedOf b "matches:live") = ms.map (shownMatch print lit) := by
  induction h with
  | nil => rfl
  | cons hfm _ ih =>
    rw [List.map_cons, List.filterMap_cons_some (namedOf_match print b lit hfm.1 hfm.2.1 hfm.2.2), ih, List.map_cons]

/-- The frames handed to a public socket are of matches, where the public channel carries
    nothing else. -/
theorem handed_matches (node : Node) {env : Env} (hpublic : env.publicChannel = "matches:live") (outcomes : Outcomes)
    (staleness : Table String Int) {es : List Event}
    (hmessages : ∀ text now, Event.message "matches:live" text now ∈ es → ∃ m : Match, text = m.text lit ∧ m.matchID ≠ "") (k : Nat) :
    ∃ ms : List Match, List.Forall₂ (fun f m => f.type = "matches:live" ∧ f.data = m.parsed lit ∧ m.matchID ≠ "")
      (handed (run node env (start outcomes staleness) es) k) ms := by
  have hfor := handed_for node env outcomes staleness es k
  generalize handed (run node env (start outcomes staleness) es) k = frames at hfor
  induction frames with
  | nil => exact ⟨[], .nil⟩
  | cons f frames ih =>
    obtain ⟨ms, hms⟩ := ih fun g hg => hfor g (List.mem_cons_of_mem _ hg)
    obtain ⟨htype, text, hmem, hdata⟩ := hfor f List.mem_cons_self
    rw [hpublic] at htype
    obtain ⟨m, rfl, hid⟩ := hmessages text f.ts (htype ▸ hmem)
    refine ⟨m :: ms, .cons ⟨htype, ?_, hid⟩ hms⟩
    rw [hdata, Relay.payloadOf, parse_match, Option.getD_some]

theorem handed_data {frames : List Frame} {ms : List Match}
    (h : List.Forall₂ (fun f m => f.type = "matches:live" ∧ f.data = m.parsed lit ∧ m.matchID ≠ "") frames ms) :
    frames.map (·.data) = ms.map (Match.parsed lit) := by
  induction h with
  | nil => rfl
  | cons hfm _ ih => rw [List.map_cons, List.map_cons, hfm.2.1, ih]

theorem none_of_type {frames : List Frame} {word : String} (h : ∀ f ∈ frames, f.type ≠ word) :
    (frames.map (frameValue print)).filterMap (dataOf b word) = [] := by
  rw [List.filterMap_map, List.filterMap_eq_nil_iff]
  intro f hf
  rw [Function.comp_apply, dataOf_frame, if_neg (h f hf)]

theorem none_named {frames : List Json.Parsed} {word : String} (h : frames.filterMap (dataOf b word) = []) :
    frames.filterMap (namedOf b word) = [] := by
  rw [List.filterMap_eq_nil_iff] at h ⊢
  exact fun f hf => namedOf_none b (h f hf)

/-- What a page with a public socket shows. -/
theorem public_page (node : Node) {env : Env} (hpublic : env.publicChannel = "matches:live") (outcomes : Outcomes)
    (staleness : Table String Int) (es : List Event)
    (hmessages : ∀ text now, Event.message "matches:live" text now ∈ es → ∃ m : Match, text = m.text lit ∧ m.matchID ≠ "") (k : Nat) :
    let r := run node env (start outcomes staleness) es
    ∃ ms : List Match, (handed r k).map (·.data) = ms.map (Match.parsed lit) ∧
      (pageOf print b r k).grid = ((newest (sameBy fun m : Match => some m.matchID) ms).take 40).map (shownMatch print lit) ∧
      (pageOf print b r k).diagnostics = [] ∧ (pageOf print b r k).pnl = none := by
  intro r
  obtain ⟨ms, hms⟩ := handed_matches lit node hpublic outcomes staleness hmessages k
  have hshows := feed_folds b ((handed r k).map (frameValue print))
  have hother : ∀ word, "matches:live" ≠ word → ((handed r k).map (frameValue print)).filterMap (dataOf b word) = [] :=
    fun word hne => none_of_type print b fun f hf => by
      rw [(handed_for node env outcomes staleness es k f hf).1, hpublic]
      exact hne
  refine ⟨ms, handed_data lit hms, ?_, ?_, ?_⟩
  · have hsame : (fun m n : Match => sameMatch b (shownMatch print lit m) (shownMatch print lit n)) =
        sameBy fun m : Match => some m.matchID := funext fun m => funext fun n => sameMatch_shown print b lit m n
    rw [pageOf, hshows.grid, page_of_matches print b lit hms, newest_map, hsame, List.map_take]
  · rw [pageOf, hshows.diagnostics, none_named b (hother "diagnostics:events" (by decide))]
    rfl
  · rw [pageOf, hshows.pnl, hother "execution:pnl" (by decide)]
    rfl

/-- A viewer, and one frame of a match. -/
def oneFrame : List Event := oneViewer ++ [.message "matches:live" ((minute31 1714567260123456789).text wholeLit) 1714567260200]

theorem a_viewer_is_shown_matches :
    let r := run plainNode defaults (start ⟨0, 0, 0⟩ Table.empty) oneFrame
    ∃ ms : List Match, (handed r 0).map (·.data) = ms.map (Match.parsed wholeLit) ∧
      (pageOf some ⟨fun _ => none⟩ r 0).grid =
        ((newest (sameBy fun m : Match => some m.matchID) ms).take 40).map (shownMatch some wholeLit) ∧
      (pageOf some ⟨fun _ => none⟩ r 0).diagnostics = [] ∧ (pageOf some ⟨fun _ => none⟩ r 0).pnl = none := by
  refine public_page some ⟨fun _ => none⟩ wholeLit plainNode rfl ⟨0, 0, 0⟩ Table.empty oneFrame (fun text now h => ?_) 0
  simp only [oneFrame, oneViewer, List.mem_append, List.mem_cons, reduceCtorEq, List.not_mem_nil, or_false, false_or,
    Event.message.injEq, true_and] at h
  exact ⟨_, h.1, by decide⟩

/-! ## Two runs -/

/-- What a page depends on: the types and the payloads of its frames. -/
def bare (f : Frame) : String × Json.Parsed := (f.type, f.data)

theorem handed_bare (r : Server) (k : Nat) : (handed r k).map bare = ((publicLog r).filter (·.1 == k)).map (·.2) := by
  rw [handed, publicLog, publicOf, List.map_map, List.filter_map, List.map_map, List.filter_filter]
  rfl

theorem pageOf_congr {r t : Server} {k : Nat} (h : (handed r k).map bare = (handed t k).map bare) :
    (pageOf print b r k).grid = (pageOf print b t k).grid ∧
      (pageOf print b r k).diagnostics = (pageOf print b t k).diagnostics ∧ (pageOf print b r k).pnl = (pageOf print b t k).pnl := by
  have hdata : ∀ word, ((handed r k).map (frameValue print)).filterMap (dataOf b word) =
      ((handed t k).map (frameValue print)).filterMap (dataOf b word) := by
    intro word
    have hbare : ∀ frames : List Frame, (frames.map (frameValue print)).filterMap (dataOf b word) = (frames.map bare).filterMap fun x =>
        if x.1 = word then (some (restate print x.2)).filter b.truthy else none := by
      intro frames
      rw [List.filterMap_map, List.filterMap_map]
      exact congrArg (fun g => frames.filterMap g) (funext fun f => dataOf_frame print b f word)
    rw [hbare, hbare, h]
  have hnamed : ∀ word, ((handed r k).map (frameValue print)).filterMap (namedOf b word) =
      ((handed t k).map (frameValue print)).filterMap (namedOf b word) := by
    intro word
    have hfilter : ∀ frames : List Json.Parsed, frames.filterMap (namedOf b word) =
        (frames.filterMap (dataOf b word)).filter fun data => (b.field "match_id" data).isSome := by
      intro frames
      rw [List.filter_filterMap]
      rfl
    rw [hfilter, hfilter, hdata]
  have hr := feed_folds b ((handed r k).map (frameValue print))
  have ht := feed_folds b ((handed t k).map (frameValue print))
  rw [pageOf, pageOf]
  refine ⟨?_, ?_, ?_⟩
  · rw [hr.grid, ht.grid, hnamed]
  · rw [hr.diagnostics, ht.diagnostics, hnamed]
  · rw [hr.pnl, ht.pnl, hdata]

/-- What other channels carry does not reach a page with a public socket. -/
theorem public_pages_agree (node : Node) (env : Env) (outcomes : Outcomes) (staleness : Table String Int) (as bs : List Event)
    (ha : Meets (step node env) (Quiet node env) (start outcomes staleness) as)
    (hb : Meets (step node env) (Quiet node env) (start outcomes staleness) bs)
    (hlow : as.filterMap (low env) = bs.filterMap (low env)) (k : Nat) :
    let r := run node env (start outcomes staleness) as
    let t := run node env (start outcomes staleness) bs
    (pageOf print b r k).grid = (pageOf print b t k).grid ∧
      (pageOf print b r k).diagnostics = (pageOf print b t k).diagnostics ∧ (pageOf print b r k).pnl = (pageOf print b t k).pnl := by
  have hlog : publicLog (run node env (start outcomes staleness) as) = publicLog (run node env (start outcomes staleness) bs) :=
    congrArg View.log ((step_unwinding node).run ha hb hlow rfl)
  refine pageOf_congr print b ?_
  rw [handed_bare, handed_bare, hlog]

/-- A settlement on the PnL channel, and without it. -/
theorem a_settlement_changes_no_page :
    let quiet := run plainNode defaults (start ⟨0, 0, 0⟩ Table.empty) (oneViewer ++ liveFeed)
    let busy := run plainNode defaults (start ⟨0, 0, 0⟩ Table.empty)
      (oneViewer ++ .message "execution:pnl" "\x7b\"settled\":[\x7b\"result\":\"won\"\x7d]\x7d" 0 :: liveFeed)
    (pageOf some ⟨fun _ => none⟩ busy 0).grid = (pageOf some ⟨fun _ => none⟩ quiet 0).grid ∧
      (pageOf some ⟨fun _ => none⟩ busy 0).diagnostics = (pageOf some ⟨fun _ => none⟩ quiet 0).diagnostics ∧
      (pageOf some ⟨fun _ => none⟩ busy 0).pnl = (pageOf some ⟨fun _ => none⟩ quiet 0).pnl :=
  public_pages_agree some ⟨fun _ => none⟩ plainNode defaults ⟨0, 0, 0⟩ Table.empty _ _ (by decide +kernel) (by decide +kernel)
    (by rfl) 0

end

end CasuyaLive.System
