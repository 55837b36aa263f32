/-
  CasuyaLive.Ingest.Boundary — the boundary of the vendor stream (data-ingestion-go,
  internal/stream/client.go: `parseScope`, `parseFrame`; internal/stream/types.go:
  `DefaultScope`, `toMatch`, `FilterScope`, `Validate`).

  `FilterScope` deletes from the map it ranges over, and only the key it is at, so every key
  is visited once. A range goes in any order; each order is a parameter. How a payload
  decodes is one too.
  - `parseScope_has`: the scope is the list's names, or the default where there is none.
  - `parse_frame_exact`: what is accepted, and the match it becomes, depend on the named
    match and its in-scope markets alone, not on an order.
-/

import CasuyaLive.Lib.Calendar
import CasuyaLive.Ingest.Contract

namespace CasuyaLive.Ingest.Stream

open CasuyaLive.Lib CasuyaLive.Lib.Text

def market1H1X2 : String := "1H_1X2"
def market2H1X2 : String := "2H_1X2"
def marketCS1H : String := "CS_1H"
def marketCS2H : String := "CS_2H"

/-- A Go map to bool: only what is set to true is in scope. -/
abbrev MarketScope := Table String Bool

def MarketScope.has (scope : MarketScope) (id : String) : Bool := (scope.get? id).getD false

def defaultScope : MarketScope where
  entries := [(market1H1X2, true), (market2H1X2, true), (marketCS1H, true), (marketCS2H, true)]
  nodup := by decide

def addScope (scope : MarketScope) (id : String) : MarketScope :=
  if trimSpace id ≠ "" then scope.set (trimSpace id) true else scope

/-- `strings.Split` at the commas. -/
def splitCommas (raw : String) : List String := (raw.toList.splitOn ',').map String.ofList

def parseScope (raw : String) : MarketScope :=
  let scope := (splitCommas raw).foldl addScope Table.empty
  if scope.entries.isEmpty then defaultScope else scope

/-- The inbound envelope. -/
structure MatchFrame where
  matchID : String
  sport : String
  league : String
  homeTeam : String
  awayTeam : String
  kickoff : Int
  clock : String
  score : Score
  markets : Table String Market
  shots : Int
  shotsOnTarget : Int
  dangerousAttacks : Int
  possessionHome : ℚ

def MatchFrame.toMatch (f : MatchFrame) (now : Int) : Match where
  matchID := f.matchID
  sport := f.sport
  league := f.league
  homeTeam := f.homeTeam
  awayTeam := f.awayTeam
  kickoff := Calendar.timeUnix f.kickoff * second
  clock := f.clock
  score := f.score
  markets := f.markets
  shots := f.shots
  shotsOnTarget := f.shotsOnTarget
  dangerousAttacks := f.dangerousAttacks
  possessionHome := f.possessionHome
  receivedAt := now

/-- The order in which a range goes over a map. -/
structure Ranging where
  order : Table String Market → List (String × Market)
  perm : ∀ t, (order t).Perm t.entries

def Match.filterScope (m : Match) (scope : MarketScope) (r : Ranging) : Match :=
  { m with markets := ((r.order m.markets).map (·.1)).foldl (fun ms id => if scope.has id then ms else ms.erase id) m.markets }

/-- `Validate` with the order of its range. -/
def Match.validateIn (m : Match) (r : Ranging) : Option BoundaryError :=
  if trimSpace m.matchID = "" then some .emptyMatchID
  else if m.markets.entries.isEmpty then some .badMarket
  else (r.order m.markets).findSome? (·.2.validate)

/-- `r` ranges in the filter, `s` in the validation. -/
def parseFrame (unmarshal : List UInt8 → Option MatchFrame) (scope : MarketScope) (r s : Ranging) (now : Int)
    (payload : List UInt8) : Option Match :=
  match unmarshal payload with
  | none => none
  | some raw =>
    match (((raw.toMatch now).filterScope scope r).validateIn s) with
    | some _ => none
    | none => some ((raw.toMatch now).filterScope scope r)

/-! ## The scope -/

/-- The names a scope string lists. -/
def names (raw : String) : List String := ((splitCommas raw).map trimSpace).filter (· ≠ "")

def defaultNames : List String := [market1H1X2, market2H1X2, marketCS1H, marketCS2H]

/-- The scope of some names. -/
def scopeOf (ids : List String) : MarketScope := ids.foldl (fun scope k => scope.set k true) Table.empty

theorem foldl_addScope (pieces : List String) (scope : MarketScope) :
    pieces.foldl addScope scope = ((pieces.map trimSpace).filter (· ≠ "")).foldl (fun scope k => scope.set k true) scope := by
  induction pieces generalizing scope with
  | nil => rfl
  | cons piece pieces ih =>
    rw [List.foldl_cons, ih, List.map_cons, addScope]
    by_cases h : trimSpace piece = ""
    · rw [if_neg (by simpa using h), List.filter_cons_of_neg (by simpa using h)]
    · rw [if_pos h, List.filter_cons_of_pos (by simpa using h), List.foldl_cons]

theorem scopeOf_get (ids : List String) (id : String) : (scopeOf ids).get? id = if id ∈ ids then some true else none := by
  have hlast := Table.get?_foldl_set (fun k : String => k) (fun _ => true) ids Table.empty id
  rw [Table.get?_empty, Option.or_none] at hlast
  rw [scopeOf, hlast]
  by_cases h : id ∈ ids
  · have hsome : (ids.reverse.find? (· == id)).isSome := by
      rw [List.find?_isSome]
      exact ⟨id, List.mem_reverse.mpr h, beq_self_eq_true id⟩
    obtain ⟨x, hx⟩ := Option.isSome_iff_exists.mp hsome
    rw [if_pos h, hx, Option.map_some]
  · have hnone : ids.reverse.find? (· == id) = none := by
      rw [List.find?_eq_none]
      intro x hx he
      exact h (eq_of_beq he ▸ List.mem_reverse.mp hx)
    rw [if_neg h, hnone, Option.map_none]

theorem scopeOf_has (ids : List String) (id : String) : (scopeOf ids).has id = true ↔ id ∈ ids := by
  rw [MarketScope.has, scopeOf_get]
  by_cases h : id ∈ ids <;> simp [h]

theorem scopeOf_isEmpty (ids : List String) : (scopeOf ids).entries.isEmpty = true ↔ ids = [] := by
  cases ids with
  | nil => simp [scopeOf, Table.empty]
  | cons id ids =>
    have hget := scopeOf_get (id :: ids) id
    rw [if_pos List.mem_cons_self] at hget
    simp [Table.isEmpty_of_get hget]

theorem defaultScope_eq : defaultScope = scopeOf defaultNames := by decide +kernel

/-- The set a scope string stands for: its names, or the default ones where there is none. -/
theorem parseScope_eq (raw : String) : parseScope raw = scopeOf (if names raw = [] then defaultNames else names raw) := by
  have hfold : (splitCommas raw).foldl addScope Table.empty = scopeOf (names raw) := foldl_addScope _ _
  have hempty := scopeOf_isEmpty (names raw)
  rw [parseScope, hfold]
  by_cases h : names raw = []
  · rw [if_pos (hempty.mpr h), if_pos h, defaultScope_eq]
  · rw [if_neg fun e => h (hempty.mp e), if_neg h]

theorem parseScope_has (raw id : String) :
    (parseScope raw).has id = true ↔ id ∈ if names raw = [] then defaultNames else names raw := by
  rw [parseScope_eq, scopeOf_has]

/-! ## The frame -/

/-- A frame under a name, with a market in scope and none there without its three prices. -/
structure Valid (scope : MarketScope) (f : MatchFrame) : Prop where
  named : trimSpace f.matchID ≠ ""
  inScope : ∃ id mkt, f.markets.get? id = some mkt ∧ scope.has id = true
  priced : ∀ id mkt, f.markets.get? id = some mkt → scope.has id = true → Positive mkt.odds

/-- The match of a frame: its scalars, the kickoff as an instant, and its markets in scope as
    they are. -/
structure Carried (scope : MarketScope) (f : MatchFrame) (now : Int) (m : Match) : Prop where
  matchID : m.matchID = f.matchID
  sport : m.sport = f.sport
  league : m.league = f.league
  homeTeam : m.homeTeam = f.homeTeam
  awayTeam : m.awayTeam = f.awayTeam
  kickoff : m.kickoff = Calendar.timeUnix f.kickoff * second
  clock : m.clock = f.clock
  score : m.score = f.score
  shots : m.shots = f.shots
  shotsOnTarget : m.shotsOnTarget = f.shotsOnTarget
  dangerousAttacks : m.dangerousAttacks = f.dangerousAttacks
  possessionHome : m.possessionHome = f.possessionHome
  receivedAt : m.receivedAt = now
  markets : ∀ id, m.markets.get? id = if scope.has id then f.markets.get? id else none

/-- Two frames that differ out of scope only. -/
structure AgreeInScope (scope : MarketScope) (f g : MatchFrame) : Prop where
  scalars : f = { g with markets := f.markets }
  markets : ∀ id, scope.has id = true → f.markets.get? id = g.markets.get? id

/-- One match: a Go map has no order. -/
structure Same (m n : Match) : Prop where
  scalars : m = { n with markets := m.markets }
  markets : ∀ id, m.markets.get? id = n.markets.get? id

theorem market_validate_iff (mkt : Market) : mkt.validate = none ↔ Positive mkt.odds := by
  refine ⟨fun h => ?_, validate_of_positive⟩
  simpa [Market.validate, Positive, Rat.not_le] using h

theorem market_validate_cases (mkt : Market) : mkt.validate = none ∨ mkt.validate = some .badOdds := by
  unfold Market.validate
  split
  · exact Or.inr rfl
  · exact Or.inl rfl

/-- The match of a frame within the scope. -/
def MatchFrame.within (f : MatchFrame) (scope : MarketScope) (now : Int) : Match :=
  { f.toMatch now with markets := f.markets.filter scope.has }

/-- However the range goes, what is out of scope is gone and the rest stays. -/
theorem filterScope_eq (f : MatchFrame) (now : Int) (scope : MarketScope) (r : Ranging) :
    (f.toMatch now).filterScope scope r = f.within scope now := by
  have hall : ∀ k ∈ f.markets.keys, k ∈ (r.order f.markets).map (·.1) := by
    intro k hk
    exact ((r.perm f.markets).map (·.1)).mem_iff.mpr hk
  have hmarkets : (f.toMatch now).markets = f.markets := rfl
  rw [Match.filterScope, hmarkets, Table.foldl_erase_all scope.has hall, MatchFrame.within]

theorem findSome_validate (l : List (String × Market)) :
    l.findSome? (·.2.validate) = if l.all (·.2.validate.isNone) then none else some .badOdds := by
  induction l with
  | nil => rfl
  | cons x l ih =>
    rw [List.findSome?_cons, ih, List.all_cons]
    rcases market_validate_cases x.2 with h | h
    · rw [h, Option.isNone_none, Bool.true_and]
    · rw [h, Option.isNone_some, Bool.false_and, if_neg Bool.false_ne_true]

/-- The order of the range does not show in the answer. -/
theorem validateIn_eq (m : Match) (r : Ranging) : m.validateIn r = m.validate := by
  rw [Match.validateIn, Match.validate, findSome_validate, findSome_validate, (r.perm m.markets).all_eq]

theorem validate_none_iff (m : Match) : m.validate = none ↔
    trimSpace m.matchID ≠ "" ∧ m.markets.entries ≠ [] ∧ ∀ id mkt, m.markets.get? id = some mkt → Positive mkt.odds := by
  have hpriced : (∀ x ∈ m.markets.entries, x.2.validate = none) ↔ ∀ id mkt, m.markets.get? id = some mkt → Positive mkt.odds := by
    refine ⟨fun h id mkt hget => ?_, fun h x hx => ?_⟩
    · exact (market_validate_iff mkt).mp (h (id, mkt) ((m.markets.mem_iff id mkt).mpr hget))
    · exact (market_validate_iff x.2).mpr (h x.1 x.2 ((m.markets.mem_iff x.1 x.2).mp hx))
  rw [← hpriced, Match.validate]
  by_cases hid : trimSpace m.matchID = ""
  · simp [hid]
  · by_cases hnil : m.markets.entries = []
    · simp [hid, hnil]
    · simp [hid, hnil, List.isEmpty_iff]

/-- A decoded frame is filtered, and passes when what is left is valid. -/
theorem parseFrame_some {unmarshal : List UInt8 → Option MatchFrame} {payload : List UInt8} {f : MatchFrame}
    (hf : unmarshal payload = some f) (scope : MarketScope) (r s : Ranging) (now : Int) :
    parseFrame unmarshal scope r s now payload =
      if (f.within scope now).validate = none then some (f.within scope now) else none := by
  simp only [parseFrame, hf, filterScope_eq, validateIn_eq]
  cases (f.within scope now).validate <;> simp

theorem within_get (f : MatchFrame) (scope : MarketScope) (now : Int) (id : String) :
    (f.within scope now).markets.get? id = if scope.has id then f.markets.get? id else none := Table.get?_filter _ _ _

theorem within_carried (f : MatchFrame) (scope : MarketScope) (now : Int) : Carried scope f now (f.within scope now) where
  matchID := rfl
  sport := rfl
  league := rfl
  homeTeam := rfl
  awayTeam := rfl
  kickoff := rfl
  clock := rfl
  score := rfl
  shots := rfl
  shotsOnTarget := rfl
  dangerousAttacks := rfl
  possessionHome := rfl
  receivedAt := rfl
  markets := within_get f scope now

theorem within_get_some (f : MatchFrame) (scope : MarketScope) (now : Int) (id : String) (mkt : Market) :
    (f.within scope now).markets.get? id = some mkt ↔ f.markets.get? id = some mkt ∧ scope.has id = true := by
  rw [within_get]
  by_cases h : scope.has id = true <;> simp [h]

theorem within_valid_iff (scope : MarketScope) (f : MatchFrame) (now : Int) :
    (f.within scope now).validate = none ↔ Valid scope f := by
  have hid : (f.within scope now).matchID = f.matchID := rfl
  rw [validate_none_iff, hid]
  refine ⟨fun h => ?_, fun h => ?_⟩
  · obtain ⟨hname, hsome, hpriced⟩ := h
    obtain ⟨x, hx⟩ := List.exists_mem_of_ne_nil _ hsome
    have hget := (within_get_some f scope now x.1 x.2).mp ((Table.mem_iff _ x.1 x.2).mp hx)
    exact ⟨hname, ⟨x.1, x.2, hget⟩, fun id mkt hm hs => hpriced id mkt ((within_get_some f scope now id mkt).mpr ⟨hm, hs⟩)⟩
  · obtain ⟨hname, ⟨id, mkt, hin⟩, hpriced⟩ := h
    have hget := (within_get_some f scope now id mkt).mpr hin
    refine ⟨hname, fun hnil => ?_, fun id mkt hm => ?_⟩
    · have hmem := (Table.mem_iff _ id mkt).mpr hget
      rw [hnil] at hmem
      cases hmem
    · have hboth := (within_get_some f scope now id mkt).mp hm
      exact hpriced id mkt hboth.1 hboth.2

/-- Frames that agree in scope are valid together, and become one match. -/
theorem AgreeInScope.within {scope : MarketScope} {f g : MatchFrame} (h : AgreeInScope scope f g) (now : Int) :
    Same (f.within scope now) (g.within scope now) := by
  refine ⟨?_, fun id => ?_⟩
  · rw [h.scalars]
    rfl
  · rw [within_get, within_get]
    by_cases hs : scope.has id = true
    · rw [if_pos hs, if_pos hs, h.markets id hs]
    · rw [if_neg hs, if_neg hs]

theorem AgreeInScope.valid {scope : MarketScope} {f g : MatchFrame} (h : AgreeInScope scope f g) (hf : Valid scope f) :
    Valid scope g := by
  obtain ⟨hname, ⟨id, mkt, hin⟩, hpriced⟩ := hf
  have hid : f.matchID = g.matchID := by rw [h.scalars]
  refine ⟨hid ▸ hname, ⟨id, mkt, h.markets id hin.2 ▸ hin.1, hin.2⟩, fun id mkt hm hs => ?_⟩
  exact hpriced id mkt ((h.markets id hs).trans hm) hs

theorem AgreeInScope.symm {scope : MarketScope} {f g : MatchFrame} (h : AgreeInScope scope f g) : AgreeInScope scope g f := by
  refine ⟨?_, fun id hs => (h.markets id hs).symm⟩
  rw [h.scalars]

/-- A frame is accepted iff it is valid, as its scalars with the markets in scope; in whatever
    order the ranges go, and whatever stands out of scope. -/
theorem parse_frame_exact (unmarshal : List UInt8 → Option MatchFrame) (raw : String) {payload : List UInt8} {f : MatchFrame}
    (hf : unmarshal payload = some f) (r s : Ranging) (now : Int) :
    ((parseFrame unmarshal (parseScope raw) r s now payload).isSome = true ↔ Valid (parseScope raw) f) ∧
      (∀ m, parseFrame unmarshal (parseScope raw) r s now payload = some m → Carried (parseScope raw) f now m) ∧
        (∀ r' s', parseFrame unmarshal (parseScope raw) r' s' now payload =
            parseFrame unmarshal (parseScope raw) r s now payload) ∧
          ∀ payload' g r' s', unmarshal payload' = some g → AgreeInScope (parseScope raw) f g →
            Option.Rel Same (parseFrame unmarshal (parseScope raw) r s now payload)
              (parseFrame unmarshal (parseScope raw) r' s' now payload') := by
  refine ⟨?_, fun m hm => ?_, fun r' s' => ?_, fun payload' g r' s' hg hagree => ?_⟩
  · rw [parseFrame_some hf, ← within_valid_iff (parseScope raw) f now]
    by_cases h : (f.within (parseScope raw) now).validate = none <;> simp [h]
  · rw [parseFrame_some hf] at hm
    split at hm
    · obtain rfl := Option.some.inj hm
      exact within_carried f (parseScope raw) now
    · cases hm
  · rw [parseFrame_some hf, parseFrame_some hf]
  · rw [parseFrame_some hf, parseFrame_some hg]
    by_cases h : Valid (parseScope raw) f
    · rw [if_pos ((within_valid_iff _ f now).mpr h), if_pos ((within_valid_iff _ g now).mpr (hagree.valid h))]
      exact Option.Rel.some (hagree.within now)
    · have hno : ¬ Valid (parseScope raw) g := fun hv => h (hagree.symm.valid hv)
      rw [if_neg fun e => h ((within_valid_iff _ f now).mp e), if_neg fun e => hno ((within_valid_iff _ g now).mp e)]
      exact Option.Rel.none

/-! ## A market out of scope -/

def inTableOrder : Ranging := ⟨Table.entries, fun _ => List.Perm.refl _⟩

def backwards : Ranging := ⟨fun t => t.entries.reverse, fun _ => List.reverse_perm _⟩

/-- Corners have no price, but are nobody's scope. -/
def twoMarkets : MatchFrame where
  matchID := "m1"
  sport := "football"
  league := "england_premier_league"
  homeTeam := "home"
  awayTeam := "away"
  kickoff := 1700000000
  clock := "10"
  score := ⟨0, 0⟩
  markets := (Table.empty.set market1H1X2 ⟨market1H1X2, ⟨3, 2, 5⟩, 0⟩).set "CORNERS" ⟨"CORNERS", ⟨0, -1, 0⟩, 0⟩
  shots := 0
  shotsOnTarget := 0
  dangerousAttacks := 0
  possessionHome := 50

theorem twoMarkets_valid : Valid (parseScope " , ") twoMarkets ∧
    parseFrame (fun _ => some twoMarkets) (parseScope " , ") backwards inTableOrder 0 [] =
      parseFrame (fun _ => some twoMarkets) (parseScope " , ") inTableOrder backwards 0 [] := by
  have h := @parse_frame_exact (fun _ => some twoMarkets) " , " [] twoMarkets rfl inTableOrder backwards 0
  exact ⟨h.1.mp (by decide +kernel), h.2.2.1 backwards inTableOrder⟩

end CasuyaLive.Ingest.Stream
