/-
  CasuyaLive.Ingest.ApiFootball.LiveOdds — the live odds of the feed and the price of every
  frame (data-ingestion-go, internal/apifootball/poller.go: `parseLiveOdds`, `cycle`).

  The feed has a bucket of bookmaker rows under each match id, with the three quotes as
  texts. A row that is no row, or a quote that is no text, fails the whole feed. The price of
  an outcome is the median of its positive quotes, and a match has a price only when each
  outcome has a quote. Quotes are exact.

  (1) `frames_quoted`: the odds of every frame of every run, of the settlement frames too,
  are a price of the match in one of the run's cycles: each outcome is quoted there, and no
  minority of the bookmakers moves its odds out of a range where the others are.
  (2) `settles_at_last_price`: a settlement frame goes out at the odds of the frame before
  it, whatever the sink answered, and a match that never had a frame gets none.
-/

import CasuyaLive.Lib.Median
import CasuyaLive.Ingest.ApiFootball.Fixture

namespace CasuyaLive.Ingest.ApiFootball

open CasuyaLive.Lib CasuyaLive.Ingest.Stream

/-! ## The feed -/

/-- One bookmaker entry inside a match bucket. -/
structure OddRow where
  odd1 : String
  oddX : String
  odd2 : String
  deriving DecidableEq

/-- A key stands for a field in any case. -/
def named (name key : String) : Bool := toLower key == name

def intoString (cur : String) : Any → Option String
  | .null => some cur
  | .bool _ => none
  | .num _ => none
  | .str t => some t
  | .arr _ => none
  | .obj _ => none

def setOdd (r : OddRow) (key : String) (v : Any) : Option OddRow :=
  if named "odd_1" key then (intoString r.odd1 v).map fun x => { r with odd1 := x }
  else if named "odd_x" key then (intoString r.oddX v).map fun x => { r with oddX := x }
  else if named "odd_2" key then (intoString r.odd2 v).map fun x => { r with odd2 := x }
  else some r

def readRow : Any → Option OddRow
  | .null => some ⟨"", "", ""⟩
  | .bool _ => none
  | .num _ => none
  | .str _ => none
  | .arr _ => none
  | .obj fields => fields.foldlM (fun r x => setOdd r x.1 x.2) ⟨"", "", ""⟩

def readRows : Any → Option (List OddRow)
  | .null => some []
  | .bool _ => none
  | .num _ => none
  | .str _ => none
  | .arr rows => rows.mapM readRow
  | .obj _ => none

/-- The buckets by match id; the last one of an id stays. -/
def liveOddsRaw : Any → Option (Table String (List OddRow))
  | .null => some Table.empty
  | .bool _ => none
  | .num _ => none
  | .str _ => none
  | .arr _ => none
  | .obj fields => fields.foldlM (fun out x => (readRows x.2).map (out.set x.1)) Table.empty

/-- The positive quotes of an outcome. -/
def quotes (odd : OddRow → String) (rows : List OddRow) : List ℚ :=
  (rows.map fun r => f (some (.str (odd r)))).filter (0 < ·)

/-- Halfway between two quotes. -/
def mean (a b : ℚ) : ℚ := (a + b) / 2

/-- The medians of a bucket, when each outcome has a quote. -/
def price (rows : List OddRow) : Option OddsSet :=
  let home := quotes OddRow.odd1 rows
  let draw := quotes OddRow.oddX rows
  let away := quotes OddRow.odd2 rows
  if home = [] ∨ draw = [] ∨ away = [] then none else some ⟨median mean home, median mean draw, median mean away⟩

def addPrice (out : Table String OddsSet) (x : String × List OddRow) : Table String OddsSet :=
  match price x.2 with
  | some o => out.set x.1 o
  | none => out

/-- Nothing of a feed that cannot be read, or that was not read. -/
def parseLiveOdds (raw : Option Any) : Table String OddsSet :=
  match raw.bind liveOddsRaw with
  | none => Table.empty
  | some payload => payload.entries.foldl addPrice Table.empty

/-- What a cycle fetches. A feed that failed has no rows, and no odds. -/
structure Fetched where
  now : Int
  odds : Option Any
  live : List Any
  day : List Any

def Fetched.feeds (x : Fetched) : Feeds := ⟨x.now, parseLiveOdds x.odds, x.live, x.day⟩

def Fetched.cycle (x : Fetched) : Cycle := x.feeds.cycle

/-- The bookmaker rows of a match in a cycle's feed. -/
def Fetched.rows (x : Fetched) (id : String) : List OddRow :=
  ((x.odds.bind liveOddsRaw).bind (·.get? id)).getD []

theorem price_nil : price [] = none := rfl

theorem parseLiveOdds_get? (x : Fetched) (id : String) : x.cycle.odds.get? id = price (x.rows id) := by
  show (parseLiveOdds x.odds).get? id = _
  rw [parseLiveOdds, Fetched.rows]
  cases x.odds.bind liveOddsRaw with
  | none => rw [Option.bind_none, Option.getD_none, price_nil, Table.get?_empty]
  | some payload =>
    have hfold := Table.foldl_at payload addPrice (·.get? id) id
      (fun cur rows => (price rows).orElse fun _ => cur)
      (fun out x hne => by
        unfold addPrice
        cases price x.2 with
        | none => rfl
        | some o => rw [Table.get?_set, if_neg hne.symm])
      (fun out rows => by
        unfold addPrice
        cases price rows with
        | none => rfl
        | some o => rw [Table.get?_set, if_pos rfl]; rfl)
      Table.empty
    simp only [Option.bind_some]
    rw [hfold]
    cases payload.get? id with
    | none => rw [Option.getD_none, price_nil]; rfl
    | some rows =>
      rw [Option.getD_some]
      cases hp : price rows <;> simp [hp]

/-! ## The price of a frame -/

/-- Each outcome is quoted, and its odds lie where most of its quotes do. -/
structure Quoted (rows : List OddRow) (o : OddsSet) : Prop where
  home : quotes OddRow.odd1 rows ≠ [] ∧ Central (quotes OddRow.odd1 rows) o.home
  draw : quotes OddRow.oddX rows ≠ [] ∧ Central (quotes OddRow.oddX rows) o.draw
  away : quotes OddRow.odd2 rows ≠ [] ∧ Central (quotes OddRow.odd2 rows) o.away

theorem mean_between (a b : ℚ) (h : a ≤ b) : a ≤ mean a b ∧ mean a b ≤ b := by
  have htwo : mean a b + mean a b = a + b := add_halves (a + b)
  refine ⟨?_, ?_⟩ <;> linarith

theorem price_quoted {rows : List OddRow} {o : OddsSet} (h : price rows = some o) : Quoted rows o := by
  simp only [price] at h
  split at h
  · cases h
  · rename_i hquoted
    rw [not_or, not_or] at hquoted
    obtain ⟨hhome, hdraw, haway⟩ := hquoted
    cases h
    exact ⟨⟨hhome, median_central mean_between hhome⟩, ⟨hdraw, median_central mean_between hdraw⟩,
      ⟨haway, median_central mean_between haway⟩⟩

/-- The markets of a frame: the one market of the feed. -/
def marketsOf (mkt : Market) : Table String Market := Table.empty.set marketFT1X2 mkt

/-- Every frame is at a price of `P`, and the market that is tracked is that of the last
    frame, or one without a quote. -/
structure Priced (P : OddsSet → Prop) (v : Option MatchState × List Match) : Prop where
  frames : ∀ m ∈ v.2, ∃ o, P o ∧ m.markets = marketsOf ⟨marketFT1X2, o, 0⟩
  tracked : ∀ st, v.1 = some st → st.lastMarket.validate = none →
    ∃ l, v.2.getLast? = some l ∧ l.markets = marketsOf st.lastMarket

variable {P : OddsSet → Prop} {c : Cycle} {id : String} {v : Option MatchState × List Match}

theorem quoteOf_spec {mkt : Market} (h : quoteOf c id = some mkt) :
    ∃ o, c.odds.get? id = some o ∧ mkt = ⟨marketFT1X2, o, 0⟩ := by
  unfold quoteOf at h
  split at h
  · cases h
  · rename_i o ho
    split at h
    · cases h
      exact ⟨o, ho, rfl⟩
    · cases h

theorem fresh_unquoted (ev : LiveEvent) : (fresh ev).lastMarket.validate ≠ none := by
  show (⟨"", ⟨0, 0, 0⟩, 0⟩ : Market).validate ≠ none
  decide

/-- A fixture that was not tracked starts without a quote. -/
theorem Priced.track (h : Priced P v) (ev : LiveEvent) : Priced P (some (v.1.getD (fresh ev)), v.2) := by
  refine ⟨h.frames, fun st hst hvalid => ?_⟩
  cases hst
  cases hv : v.1 with
  | none =>
    rw [hv, Option.getD_none] at hvalid
    exact absurd hvalid (fresh_unquoted ev)
  | some st =>
    rw [hv, Option.getD_some] at hvalid
    exact h.tracked st hv hvalid

theorem liveView_priced (h : Priced P v) (hodds : ∀ o, c.odds.get? id = some o → P o) (ev : LiveEvent) :
    Priced P (liveView c id v ev) := by
  unfold liveView
  split
  · exact h
  · have htrack := h.track ev
    cases hq : quoteOf c id with
    | none => exact htrack
    | some mkt =>
      simp only
      split
      · exact htrack
      · obtain ⟨o, ho, rfl⟩ := quoteOf_spec hq
        refine ⟨fun m hm => ?_, fun st hst _ => ?_⟩
        · rcases List.mem_append.mp hm with hm | hm
          · exact h.frames m hm
          · rw [List.mem_singleton.mp hm]
            exact ⟨o, hodds o ho, rfl⟩
        · cases hst
          exact ⟨_, List.getLast?_concat, rfl⟩

/-- A settlement frame that is valid repeats the market of the last frame. -/
theorem settles_last (h : Priced P v) (hday : ∀ ev, c.day.get? id = some ev → ev.hasClosedOdds = false) {st : MatchState}
    (hst : v.1 = some st) {m : Match} (hs : settles c (id, st) = some m) (hvalid : m.validate = none) :
    ∃ l, v.2.getLast? = some l ∧ l.markets = m.markets := by
  unfold settles at hs
  split at hs
  · cases hs
  · split at hs
    · cases hs
    · rename_i ev hev
      obtain ⟨final, -, rfl⟩ := Option.map_eq_some_iff.mp hs
      have hclose : closingMarket st ev = st.lastMarket := by
        rw [closingMarket, if_neg (by rw [hday ev hev]; decide)]
      rw [settlementFrame_valid, hclose] at hvalid
      obtain ⟨l, hl, hmarkets⟩ := h.tracked st hst hvalid
      refine ⟨l, hl, ?_⟩
      rw [hmarkets, settlementFrame, hclose]
      rfl

theorem settleView_priced (h : Priced P v) (hday : ∀ ev, c.day.get? id = some ev → ev.hasClosedOdds = false) {st : MatchState}
    (hst : v.1 = some st) : Priced P (settleView c id v st) := by
  unfold settleView
  cases hs : settles c (id, st) with
  | none => exact h
  | some frame =>
    refine ⟨fun m hm => ?_, fun st' hst' => by cases hst'⟩
    simp only at hm
    split at hm
    · rename_i hvalid
      rcases List.mem_append.mp hm with hm | hm
      · exact h.frames m hm
      · obtain rfl := List.mem_singleton.mp hm
        obtain ⟨l, hl, hmarkets⟩ := settles_last h hday hst hs hvalid
        obtain ⟨o, ho, heq⟩ := h.frames l (List.mem_of_getLast? hl)
        exact ⟨o, ho, hmarkets.symm.trans heq⟩
    · exact h.frames m hm

theorem cycleView_priced (h : Priced P v) (hodds : ∀ o, c.odds.get? id = some o → P o)
    (hday : ∀ ev, c.day.get? id = some ev → ev.hasClosedOdds = false) : Priced P (cycleView c id v) := by
  unfold cycleView
  cases c.live.get? id with
  | some ev => exact liveView_priced h hodds ev
  | none =>
    cases hst : v.1 with
    | none => exact h
    | some st => exact settleView_priced h hday hst

/-- Closing odds are never read. -/
theorem parseEvents_unclosed {rows : List Any} {ev : LiveEvent} (h : (parseEvents rows).get? id = some ev) :
    ev.hasClosedOdds = false := by
  obtain ⟨row, -, hd⟩ := parseEvents_row h
  unfold decodeEvent at hd
  simp only at hd
  split at hd
  · cases hd
  · simp only [Option.some.injEq, Prod.mk.injEq] at hd
    obtain ⟨-, rfl⟩ := hd
    exact fold_inv (fun e : LiveEvent => e.hasClosedOdds = false)
      (fun e row he => onStatistic_cases (P := fun e => e.hasClosedOdds = false) row he he he he he) _ rfl

/-- In every run the frames are at prices the run fetched. -/
theorem run_priced (sink : Sink LiveEvent) (id : String) (xs : List Fetched) :
    Priced (fun o => ∃ x ∈ xs, Quoted (x.rows id) o) (view id (run sink (xs.map Fetched.cycle))) := by
  refine run_view sink id ⟨fun m hm => (List.not_mem_nil hm).elim, fun st hst => by cases hst⟩ _ ?_
  intro c hc v hv
  obtain ⟨x, hx, rfl⟩ := List.mem_map.mp hc
  refine cycleView_priced hv (fun o ho => ⟨x, hx, ?_⟩) fun ev hev => parseEvents_unclosed hev
  rw [parseLiveOdds_get?] at ho
  exact price_quoted ho

/-- Three bookmakers on fixture 42, one of them far off. -/
def threeBooks : Any :=
  .obj [("42", .arr [.obj [("odd_1", .str "2.10"), ("odd_x", .str "3.40"), ("odd_2", .str "3.60")],
    .obj [("odd_1", .str "90"), ("odd_x", .str "0"), ("odd_2", .null)],
    .obj [("odd_1", .str "2.00"), ("ODD_X", .str "3.20"), ("odd_2", .str "3.50")]])]

def lastPoll : Fetched := ⟨1714571280 * second, some threeBooks, [runningRow "88"], []⟩

/-- The settlement frame of a match comes after another frame of it, at the same odds. -/
theorem settles_at_last_price (sink : Sink LiveEvent) (id : String) (xs : List Fetched) (x : Fetched) {m : Match}
    (h : endOf x.cycle id ((run sink (xs.map Fetched.cycle)).playing.get? id) = some m) :
    ∃ pre l, framesOf (matchIDKey id) (run sink (xs.map Fetched.cycle)).log = pre ++ [l] ∧
      framesOf (matchIDKey id) (run sink ((xs ++ [x]).map Fetched.cycle)).log = pre ++ [l, m] ∧
      m.markets = l.markets := by
  have hnext : run sink ((xs ++ [x]).map Fetched.cycle) = cycle sink (run sink (xs.map Fetched.cycle)) x.cycle := by
    simp [run, List.foldl_append]
  have hlive : liveOf x.cycle id = none := by
    cases hl : liveOf x.cycle id with
    | none => rfl
    | some n =>
      obtain ⟨ev, hev, -⟩ := liveOf_spec hl
      rw [endOf_of_shows hev] at h
      cases h
  have hframes := cycle_frames sink x.cycle id (run sink (xs.map Fetched.cycle))
  rw [hlive, h] at hframes
  obtain ⟨hbind, hvalid⟩ := Option.filter_eq_some_iff.mp h
  obtain ⟨st, hst, hs⟩ := Option.bind_eq_some_iff.mp hbind
  obtain ⟨l, hl, hmarkets⟩ := settles_last (run_priced sink id xs) (fun ev hev => parseEvents_unclosed hev) hst hs
    (of_decide_eq_true hvalid)
  obtain ⟨pre, hpre⟩ := List.getLast?_eq_some_iff.mp hl
  have hbefore : framesOf (matchIDKey id) (run sink (xs.map Fetched.cycle)).log = pre ++ [l] := hpre
  refine ⟨pre, l, hbefore, ?_, hmarkets.symm⟩
  rw [hnext, hframes, hbefore]
  simp

def finalRow : Any :=
  .obj [("match_id", .str "42"), ("match_hometeam_name", .str "Home"), ("match_awayteam_name", .str "Away"),
    ("match_status", .str "FT"), ("match_hometeam_score", .str "2"), ("match_awayteam_score", .str "1")]

def endPoll : Fetched := ⟨1714571580 * second, none, [], [finalRow]⟩

theorem the_last_price_settles :
    ∃ m, endOf endPoll.cycle "42" ((run accept ([lastPoll].map Fetched.cycle)).playing.get? "42") = some m ∧
      ∃ pre l, framesOf (matchIDKey "42") (run accept ([lastPoll].map Fetched.cycle)).log = pre ++ [l] ∧
        framesOf (matchIDKey "42") (run accept (([lastPoll] ++ [endPoll]).map Fetched.cycle)).log = pre ++ [l, m] ∧
        m.markets = l.markets := by
  have hsome : (endOf endPoll.cycle "42" ((run accept ([lastPoll].map Fetched.cycle)).playing.get? "42")).isSome = true := by
    decide +kernel
  obtain ⟨m, hm⟩ := Option.isSome_iff_exists.mp hsome
  exact ⟨m, hm, settles_at_last_price accept "42" [lastPoll] endPoll hm⟩

end CasuyaLive.Ingest.ApiFootball
