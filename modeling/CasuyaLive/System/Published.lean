/-
  CasuyaLive.System.Published — a published frame, from the ingestor to its readers
  (data-ingestion-go, internal/cache/redis.go: `PublishMatch`; internal/stream/types.go;
  analytics-engine-py, src/main.py: `run`; src/feature_study.py: `observe_many`;
  scripts/calibrate.py: `load_frames`, `group_cycles`).

  A frame goes out twice, on the channel and in the stream, as one text. `Printed` is what is
  asked of the literals of its doubles.
  (1) `published_are_read`: in every run the analytics engine reads each text of the channel
      as the frame of its match, its markets in the order of their keys; each call that
      returned nil is among them, and nothing is that was not called.
  (2) `history_is_published`: a calibration reads the latest matches of the stream, each with
      its kickoff's second and its receive time to the microsecond.
-/

import CasuyaLive.Analytics.Payload
import CasuyaLive.Calibration.History
import CasuyaLive.Ingest.Frames
import CasuyaLive.System.Envelopes
import CasuyaLive.System.Possession

namespace CasuyaLive.System

open CasuyaLive.Lib CasuyaLive.Analytics CasuyaLive.Calibration CasuyaLive.Ingest CasuyaLive.Ingest.Stream

section

variable (d : Doubles) (lit : ℚ → Json.Lit)

/-- The literal that is printed of the number names it. -/
def LitNames (q : ℚ) : Prop := readFloat d (.num (lit q)) = some q

/-- So do the literals of all the match's doubles. -/
structure Printed (m : Match) : Prop where
  possession : LitNames d lit m.possessionHome
  odds : ∀ x ∈ m.markets.entries, LitNames d lit x.2.odds.home ∧ LitNames d lit x.2.odds.draw ∧ LitNames d lit x.2.odds.away

/-- A market's quotes as they are read. -/
def quotesOf (market : Market) : Quotes :=
  ((Table.empty.set "home" (some market.odds.home)).set "draw" (some market.odds.draw)).set "away" (some market.odds.away)

theorem go_str (s : String) : Json.go.value (.str s) = .str (Json.ofString s) := rfl

theorem go_num (l : Json.Lit) : Json.go.value (.num l) = .num l := rfl

theorem readText_go (s : String) : readText (Json.go.value (textValue s)) = some s := by
  rw [textValue, go_str, readText, Json.toText_ofString]

theorem readInt_go (n : Int) : readInt (Json.go.value (intValue n)) = some n := by
  rw [intValue, go_num, readInt, Json.int?_ofInt]

theorem readScore_go (s : Score) : readScore (Json.go.value s.value) = some (some ⟨some s.home, some s.away⟩) := by
  have hget : ∀ key, (Json.go.value s.value).get? (Json.ofString key) = _ := Json.get?_go [("home", intValue s.home), ("away", intValue s.away)]
  have hhome : fieldOf readInt (Json.go.value s.value) "home" = some (some s.home) :=
    fieldOf_some (hget "home") (readInt_go s.home)
  have haway : fieldOf readInt (Json.go.value s.value) "away" = some (some s.away) :=
    fieldOf_some (hget "away") (readInt_go s.away)
  rw [Score.value, Json.Quoting.value] at hhome haway ⊢
  rw [readScore, hhome, haway]
  rfl

theorem readQuote_go {q : ℚ} (h : LitNames d lit q) (t : Quotes) (side : String) :
    readQuote d t (Json.ofString side, .num (lit q)) = some (t.set side (some q)) := by
  have hread : readFloat d (.num (lit q)) = some q := h
  simp only [readQuote, hread, Json.toText_ofString, Option.map_some]

theorem readQuotes_go {market : Market}
    (h : LitNames d lit market.odds.home ∧ LitNames d lit market.odds.draw ∧ LitNames d lit market.odds.away) :
    readQuotes d (Json.go.value (market.odds.value lit)) = some (quotesOf market) := by
  obtain ⟨hhome, hdraw, haway⟩ := h
  have hunits : ∀ s, Json.go.units s = Json.ofString s := fun _ => rfl
  rw [OddsSet.value, Json.Quoting.value, Json.members_eq]
  simp only [readQuotes, List.map_cons, List.map_nil, go_num, hunits, List.foldlM_cons, List.foldlM_nil, readQuote_go d lit hhome,
    readQuote_go d lit hdraw, readQuote_go d lit haway, Option.bind_eq_bind, Option.bind_some]
  rfl

theorem readMarket_go {market : Market}
    (h : LitNames d lit market.odds.home ∧ LitNames d lit market.odds.draw ∧ LitNames d lit market.odds.away) :
    readMarket d (Json.go.value (market.value lit)) = some (quotesOf market) := by
  have hodds : fieldOf (readQuotes d) (Json.go.value (market.value lit)) "odds" = some (some (quotesOf market)) :=
    fieldOf_some (Json.get?_go _ "odds") (readQuotes_go d lit h)
  rw [Market.value, Json.Quoting.value] at hodds ⊢
  rw [readMarket, hodds]
  rfl

/-- Keys that do not repeat become entries in their order. -/
theorem foldlM_set {α : Type} (read : Json.Parsed → Option α) (value : Market → GoValue) (of : Market → α)
    (l : List (String × Market)) (hread : ∀ x ∈ l, read (Json.go.value (value x.2)) = some (of x.2)) :
    ∀ t : Table String α, (l.map (·.1)).Nodup → (∀ x ∈ l, t.get? x.1 = none) →
      ∃ t', (l.map fun x => (Json.ofString x.1, Json.go.value (value x.2))).foldlM
        (fun t f => (read f.2).map fun q => t.set (Json.toText f.1) q) t = some t' ∧
        t'.entries = t.entries ++ l.map fun x => (x.1, of x.2) := by
  induction l with
  | nil => exact fun t _ _ => ⟨t, rfl, (List.append_nil _).symm⟩
  | cons x l ih =>
    intro t hnodup habsent
    rw [List.map_cons, List.nodup_cons] at hnodup
    obtain ⟨t', hfold, hentries⟩ := ih (fun y hy => hread y (List.mem_cons_of_mem _ hy)) (t.set x.1 (of x.2)) hnodup.2
      fun y hy => by
        have hne : y.1 ≠ x.1 := fun e => hnodup.1 (e ▸ List.mem_map_of_mem hy)
        rw [Table.get?_set_ne _ _ hne]
        exact habsent y (List.mem_cons_of_mem _ hy)
    refine ⟨t', ?_, ?_⟩
    · rw [List.map_cons, List.foldlM_cons, hread x List.mem_cons_self, Option.map_some, Json.toText_ofString]
      exact hfold
    · rw [hentries, Table.entries_set_new _ _ (habsent x List.mem_cons_self), List.append_assoc]
      rfl

theorem readMarkets_go {m : Match} (h : Printed d lit m) :
    readMarkets d (Json.go.value (.obj ((sorted m.markets).entries.map fun x => (x.1, x.2.value lit)))) =
      some ((sorted m.markets).mapVal quotesOf) := by
  have hread : ∀ x ∈ (sorted m.markets).entries, readMarket d (Json.go.value (x.2.value lit)) = some (quotesOf x.2) :=
    fun x hx => readMarket_go d lit (h.odds x ((List.mem_insertionSort keyOrder).mp hx))
  obtain ⟨t', hfold, hentries⟩ := foldlM_set (readMarket d) (Market.value lit) quotesOf (sorted m.markets).entries hread
    Table.empty (sorted m.markets).nodup fun _ _ => rfl
  have htable : t' = (sorted m.markets).mapVal quotesOf := by
    rw [← Table.entries_inj, hentries]
    rfl
  have hunits : ∀ s, Json.go.units s = Json.ofString s := fun _ => rfl
  rw [Json.Quoting.value, Json.members_eq, List.map_map]
  simp only [readMarkets, Function.comp_def, hunits]
  rw [hfold, htable]

/-- A published frame is read as the frame of its match. -/
theorem frameOf_parsed {m : Match} (h : Printed d lit m) : frameOf d (m.parsed lit) = some (asRead m.written) := by
  have htext : ∀ {key s}, (m.parsed lit).get? (Json.ofString key) = some (Json.go.value (textValue s)) →
      fieldOf readText (m.parsed lit) key = some (some s) := fun hget => fieldOf_some hget (readText_go _)
  have hint : ∀ {key n}, (m.parsed lit).get? (Json.ofString key) = some (Json.go.value (intValue n)) →
      fieldOf readInt (m.parsed lit) key = some (some n) := fun hget => fieldOf_some hget (readInt_go _)
  have hid : fieldOrNull readText (m.parsed lit) "match_id" = some (some m.matchID) :=
    fieldOrNull_some (parsed_get? lit m "match_id") (readText_go m.matchID) nofun
  have hclock : fieldOrNull readText (m.parsed lit) "clock" = some (some m.clock) :=
    fieldOrNull_some (parsed_get? lit m "clock") (readText_go m.clock) nofun
  have hscore : fieldOrNull readScore (m.parsed lit) "score" = some (some (some ⟨some m.score.home, some m.score.away⟩)) :=
    fieldOrNull_some (parsed_get? lit m "score") (readScore_go m.score) nofun
  have hmarkets : fieldOrNull (readMarkets d) (m.parsed lit) "markets" = some (some ((sorted m.markets).mapVal quotesOf)) :=
    fieldOrNull_some (parsed_get? lit m "markets") (readMarkets_go d lit h) nofun
  have hpossession : fieldOf (readFloat d) (m.parsed lit) "possession_home" = some (some m.possessionHome) :=
    fieldOf_some (parsed_get? lit m "possession_home") h.possession
  rw [frameOf, hid, hclock, hscore, hmarkets, hpossession, fieldOf_none (parsed_get? lit m "score_home"),
    fieldOf_none (parsed_get? lit m "score_away"), htext (parsed_get? lit m "league"), htext (parsed_get? lit m "home_team"),
    htext (parsed_get? lit m "away_team"), hint (parsed_get? lit m "shots"), hint (parsed_get? lit m "shots_on_target"),
    hint (parsed_get? lit m "dangerous_attacks")]
  rfl

theorem frameOfText_match {m : Match} (h : Printed d lit m) : frameOfText d (m.text lit) = some (asRead m.written) := by
  obtain ⟨fields, hfields⟩ : ∃ fields, m.parsed lit = .obj fields := ⟨_, by rw [Match.parsed, Json.Quoting.value]⟩
  have hread := frameOf_parsed d lit h
  rw [hfields] at hread
  rw [frameOfText, parse_match, hfields]
  exact hread

/-! ## The channel -/

variable (shortest : ℚ → String)

theorem executed_marshals {render : Match → String} {es : List Cache.Event} {w : Int × Match} (h : w ∈ Cache.executed render es) :
    Cache.marshal render w.2 = some (render w.2) := by
  induction es with
  | nil => cases h
  | cons e es ih =>
    cases e with
    | close => cases h
    | publish now m fate =>
      rw [Cache.executed] at h
      split at h
      · rename_i hm
        rcases List.mem_cons.mp h with rfl | h
        · rw [Bool.and_eq_true] at hm
          unfold Cache.marshal at hm ⊢
          split
          · rfl
          · rename_i hyears
            rw [if_neg hyears] at hm
            exact absurd hm.1 (by decide)
        · exact ih h
      · exact ih h

theorem executed_years {render : Match → String} {es : List Cache.Event} {w : Int × Match} (h : w ∈ Cache.executed render es) :
    Cache.inYears w.2.kickoff = true ∧ Cache.inYears w.2.receivedAt = true := by
  have hm := executed_marshals h
  rw [Cache.marshal] at hm
  split at hm
  · rename_i hyears
    exact Bool.and_eq_true_iff.mp hyears
  · cases hm

theorem published_texts (render : Match → String) (es : List Cache.Event) :
    (after (Cache.step render shortest) Cache.new es).published = (Cache.executed render es).map fun w => render w.2 := by
  rw [(Cache.run_holds render shortest es rfl).published, Cache.new, List.nil_append]
  exact List.filterMap_eq_map_iff_forall_eq_some.mpr fun w hw => executed_marshals hw

/-- The analytics engine reads every published text as the frame of its match. -/
theorem published_are_read (es : List Cache.Event) (hprint : ∀ w ∈ Cache.executed (Match.text lit) es, Printed d lit w.2) :
    (after (Cache.step (Match.text lit) shortest) Cache.new es).published.map (frameOfText d) =
        (Cache.executed (Match.text lit) es).map (fun w => some (asRead w.2.written)) ∧
      (Cache.acknowledged (outputs (Cache.step (Match.text lit) shortest) Cache.new es)).Sublist
        ((Cache.executed (Match.text lit) es).map (·.2)) ∧
      ((Cache.executed (Match.text lit) es).map (·.2)).Sublist (Cache.calls es) := by
  refine ⟨?_, Cache.acknowledged_executed (Match.text lit) shortest es rfl, Cache.executed_calls (Match.text lit) es⟩
  rw [published_texts, List.map_map]
  refine List.map_congr_left fun w hw => ?_
  rw [Function.comp_apply, frameOfText_match d lit (hprint w hw)]

/-! ## The history -/

/-- Python's years begin with 1. -/
structure FromYearOne (m : Match) : Prop where
  kickoff : -62135596800000000000 ≤ m.kickoff
  receivedAt : -62135596800000000000 ≤ m.receivedAt

/-- A match as a calibration reads it. -/
def asPayload (m : Match) : Payload :=
  ⟨⟨asRead m.written, ((m.receivedAt / 1000 : Int) : ℚ) / 1000000⟩, .instant ((m.kickoff / 1000).tdiv 1000000)⟩

theorem time_get? {m : Match} {key : String} {t : Int}
    (h : (m.parsed lit).get? (Json.ofString key) = some (Json.go.value (timeValue t))) :
    (m.parsed lit).get? (Json.ofString key) = some (.str (Json.ofString (String.ofList (Calendar.rfc3339 t)))) := by
  simp only [h, timeValue, Json.Quoting.value, Json.go]

theorem readPayload_parsed {m : Match} (h : Printed d lit m) (hyears : Cache.inYears m.kickoff = true ∧ Cache.inYears m.receivedAt = true)
    (hone : FromYearOne m) : readPayload d (m.parsed lit) = some (asPayload m) := by
  have hbound : ∀ {t : Int}, Cache.inYears t = true → t < 253402300800000000000 := by
    intro t ht
    rw [Cache.inYears, Bool.and_eq_true, decide_eq_true_eq, decide_eq_true_eq, Cache.unix] at ht
    omega
  have hepoch : frameEpoch d (m.parsed lit) = some (((m.receivedAt / 1000 : Int) : ℚ) / 1000000) := by
    have hiso : Calendar.fromIso (replaceZ (Calendar.rfc3339 m.receivedAt)) = some (m.receivedAt / 1000) := by
      rw [replaceZ_stamp]
      exact Calendar.fromIso_stamp hone.receivedAt (hbound hyears.2) (by decide) (by decide)
    simp only [frameEpoch, time_get? lit (parsed_get? lit m "received_at"), Json.toText_ofString, String.toList_ofList, hiso]
  have hkickoff : kickoffOf d (m.parsed lit) = .instant ((m.kickoff / 1000).tdiv 1000000) := by
    have hiso : Calendar.fromIso (Calendar.rfc3339 m.kickoff) = some (m.kickoff / 1000) :=
      Calendar.fromIso_rfc3339 hone.kickoff (hbound hyears.1)
    simp only [kickoffOf, time_get? lit (parsed_get? lit m "kickoff"), Json.toText_ofString, pyInt_rfc3339, String.toList_ofList, hiso]
  rw [readPayload, frameOf_parsed d lit h, hepoch, hkickoff]
  rfl

theorem text_nonempty (m : Match) : m.text lit ≠ "" := by
  obtain ⟨c, cs, hhead, -⟩ := Json.go.text_head (.obj (m.fields lit))
  rw [Match.text, hhead, ne_eq, ← String.toList_inj, String.toList_ofList]
  exact List.cons_ne_nil c cs

theorem stream_entries (render : Match → String) (es : List Cache.Event) :
    (after (Cache.step render shortest) Cache.new es).stream =
      (Cache.executed render es).map fun w => ⟨w.2.matchID, Cache.unixMilli w.2.receivedAt, render w.2⟩ := by
  rw [(Cache.run_holds render shortest es rfl).stream, Cache.new, List.nil_append]
  refine List.filterMap_eq_map_iff_forall_eq_some.mpr fun w hw => ?_
  rw [Cache.entryOf, executed_marshals hw]
  rfl

/-- The history of a calibration is the end of the stream. -/
theorem history_is_published (es : List Cache.Event) {limit : Nat} (hlimit : 1 ≤ limit)
    (hprint : ∀ w ∈ Cache.executed (Match.text lit) es, Printed d lit w.2 ∧ FromYearOne w.2) :
    historyCycles d (after (Cache.step (Match.text lit) shortest) Cache.new es).stream limit =
      some (groupCycles (((Cache.executed (Match.text lit) es).reverse.take limit).reverse.map fun w => asPayload w.2)) := by
  have hexec : ∀ w ∈ (Cache.executed (Match.text lit) es).reverse.take limit, w ∈ Cache.executed (Match.text lit) es :=
    fun w hw => List.mem_reverse.mp (List.mem_of_mem_take hw)
  have hloaded : ∀ w : Int × Match, (if w.2.text lit = "" then none else Json.parse (w.2.text lit).toList) = some (w.2.parsed lit) := by
    intro w
    rw [if_neg (text_nonempty lit w.2), parse_match]
  have hpayload : ∀ w ∈ (Cache.executed (Match.text lit) es).reverse.take limit, readPayload d (w.2.parsed lit) = some (asPayload w.2) :=
    fun w hw => readPayload_parsed d lit (hprint w (hexec w hw)).1 (executed_years (hexec w hw)) (hprint w (hexec w hw)).2
  have hframes : loadFrames (after (Cache.step (Match.text lit) shortest) Cache.new es).stream limit =
      some (((Cache.executed (Match.text lit) es).reverse.take limit).map fun w => w.2.parsed lit).reverse := by
    rw [loadFrames, if_neg (Nat.not_lt.mpr hlimit), stream_entries, ← List.map_reverse, ← List.map_take, List.filterMap_map]
    refine congrArg (fun frames => some (List.reverse frames)) (List.filterMap_eq_map_iff_forall_eq_some.mpr fun w _ => ?_)
    rw [Function.comp_apply]
    exact hloaded w
  rw [historyCycles, hframes, Option.map_some, ← List.map_reverse, List.filterMap_map]
  refine congrArg (fun frames => some (groupCycles frames)) (List.filterMap_eq_map_iff_forall_eq_some.mpr fun w hw => ?_)
  rw [Function.comp_apply]
  exact hpayload w (List.mem_reverse.mp hw)

end

/-! ## Two frames of one match -/

/-- Minute 31 of a match, quoted in one market, received at a time in nanoseconds. -/
def minute31 (receivedAt : Int) : Match :=
  { matchID := "hb-7", sport := "football", league := "Serie A", homeTeam := "Roma", awayTeam := "Lazio", kickoff := 1714565400000000000
    clock := "31'", score := ⟨1, 0⟩
    markets := Table.empty.set "1H_1X2" ⟨"1H_1X2", ⟨2, 3, 4⟩, 1714567260000⟩
    shots := 4, shotsOnTarget := 2, dangerousAttacks := 17, possessionHome := 0, receivedAt := receivedAt }

/-- The second call's reply gets lost, the third one fails. -/
def threeCalls : List Cache.Event :=
  [.publish 1 (minute31 1714567260123456789) .answered, .publish 2 (minute31 1714567265000000000) .lost,
    .publish 3 (minute31 1714567270000000000) .failed]

def wholeLit (q : ℚ) : Json.Lit := .ofInt q.num

theorem names_whole {n : Int} (h : n.natAbs ≤ 2 ^ 53) : LitNames decimals wholeLit n := by
  obtain ⟨x, hx, hv⟩ := decimals_lawful.nearest_ofInt n h
  rw [LitNames, readFloat, wholeLit, Rat.num_intCast, hx, Option.map_some, hv]

theorem minute31_printed (receivedAt : Int) : Printed decimals wholeLit (minute31 receivedAt) := by
  refine ⟨names_whole (n := 0) (by decide), fun x hx => ?_⟩
  obtain rfl := List.mem_singleton.mp hx
  exact ⟨names_whole (n := 2) (by decide), names_whole (n := 3) (by decide), names_whole (n := 4) (by decide)⟩

theorem two_take_effect : Cache.executed (Match.text wholeLit) threeCalls =
    [(1, minute31 1714567260123456789), (2, minute31 1714567265000000000)] := by
  simp [threeCalls, Cache.executed, Cache.marshal, Cache.inYears, Cache.unix, minute31]

theorem two_frames_are_read :
    (after (Cache.step (Match.text wholeLit) fun _ => "0") Cache.new threeCalls).published.map (frameOfText decimals) =
      [some (asRead (minute31 1714567260123456789).written), some (asRead (minute31 1714567265000000000).written)] := by
  have h := (published_are_read decimals wholeLit (fun _ => "0") threeCalls fun w hw => by
    rw [two_take_effect] at hw
    rcases List.mem_cons.mp hw with rfl | hw
    · exact minute31_printed _
    · rw [List.mem_singleton.mp hw]
      exact minute31_printed _).1
  rw [two_take_effect] at h
  exact h

theorem one_cycle_of_two : historyCycles decimals
    (after (Cache.step (Match.text wholeLit) fun _ => "0") Cache.new threeCalls).stream 2000 =
      some (groupCycles [asPayload (minute31 1714567260123456789), asPayload (minute31 1714567265000000000)]) := by
  have h := history_is_published decimals wholeLit (fun _ => "0") threeCalls (by decide : 1 ≤ 2000) fun w hw => by
    rw [two_take_effect] at hw
    rcases List.mem_cons.mp hw with rfl | hw
    · exact ⟨minute31_printed _, by decide, by decide⟩
    · rw [List.mem_singleton.mp hw]
      exact ⟨minute31_printed _, by decide, by decide⟩
  rw [two_take_effect] at h
  exact h

end CasuyaLive.System
