/-
  CasuyaLive.Execution.Operator — the operator's placements (execution-engine-go,
  internal/broker/operator.go: `RecordPlacement`, `PlacementFromMap`; internal/api/server.go:
  `operatorPlacements`, `numericValue`).

  A placement goes to a hash under its order id and to a stream, both at once. Redis answers
  a stream entry as texts; the handler reads three of them as numbers again, the rebuilding
  of a placement asserts the types that went in.
  - `hash_latest`, `stream_messages`: what a run of calls leaves.
  - `served_shows`: an entry that the handler serves shows every field of its placement.
  - `placement_rebuilt_iff`: a placement comes back from its own stream entry iff its three
    numbers are 0 (`evens_come_back_without_a_price`).
-/

import CasuyaLive.Lib.Table
import CasuyaLive.Lib.Text

namespace CasuyaLive.Execution.Operator

open CasuyaLive.Lib

/-- The float64s, as Go's conversions, go-redis and `strconv.ParseFloat` know them. -/
structure Floats where
  F : Type
  zero : F
  finite : F → Bool
  ofInt : Int64 → F
  toInt : F → Int64
  formatFloat : F → String
  parseFloat : String → Option F

structure Floats.Lawful (fl : Floats) : Prop where
  toInt_zero : fl.toInt fl.zero = 0
  /-- The text of a finite number is read back as it. -/
  parse_format : ∀ x, fl.finite x = true → fl.parseFloat (fl.formatFloat x) = some x
  parse_itoa : ∀ n : Int64, fl.parseFloat (Text.itoa n.toInt) = some (fl.ofInt n)

structure Placement (fl : Floats) where
  orderID : String
  matchID : String
  market : String
  side : String
  odds : fl.F
  stake : fl.F
  book : String
  status : String
  note : String
  placedAt : Int64

/-- What a value of type `any` holds here. -/
inductive Any (fl : Floats) where
  | string (s : String)
  | float64 (x : fl.F)
  | int64 (n : Int64)

/-- One entry of the stream as Redis answers it. -/
structure Message where
  id : String
  values : Table String String

variable {fl : Floats}

/-- The text go-redis sends for a value. -/
def Any.sent : Any fl → String
  | .string s => s
  | .float64 x => fl.formatFloat x
  | .int64 n => Text.itoa n.toInt

namespace Placement

/-- The values of the XADD. -/
def values (p : Placement fl) : Table String (Any fl) where
  entries := [("order_id", .string p.orderID), ("match_id", .string p.matchID), ("market", .string p.market),
    ("side", .string p.side), ("odds", .float64 p.odds), ("stake", .float64 p.stake), ("book", .string p.book),
    ("status", .string p.status), ("note", .string p.note), ("placed_at", .int64 p.placedAt)]
  nodup := by simp

def message (id : String) (p : Placement fl) : Message := ⟨id, p.values.mapVal Any.sent⟩

/-- JSON has no text for another number. -/
def marshals (p : Placement fl) : Bool := fl.finite p.odds && fl.finite p.stake

end Placement

/-- The hash, whose texts are the placements in JSON, and the stream, oldest first. -/
structure Desk (fl : Floats) where
  hash : Table String (Placement fl)
  stream : List Message

def noPlacements (fl : Floats) : Desk fl := ⟨Table.empty, []⟩

/-- MAXLEN of the stream; being approximate it may leave more, never less. -/
def maxLen : Nat := 1000

/-- The id the stream gives, what its trimming would drop, and the placement. -/
structure Call (fl : Floats) where
  id : String
  trim : Nat
  placement : Placement fl

/-- What the pipeline leaves, and whether there was no error. -/
def recordPlacement (s : Desk fl) (c : Call fl) : Desk fl × Bool :=
  if c.placement.marshals then
    let added := s.stream ++ [c.placement.message c.id]
    (⟨s.hash.set c.placement.orderID c.placement, added.drop (min c.trim (added.length - maxLen))⟩, true)
  else (s, false)

/-! ## Reading the stream -/

/-- `limit` of the query. -/
def limitOf (v : String) : Nat :=
  let (n, ok) := Text.atoi v
  if v ≠ "" ∧ ok = true ∧ 0 < n ∧ n ≤ 500 then n.toNat else 50

def numericValue : Any fl → Any fl
  | .string s => ((fl.parseFloat s).map .float64).getD (.string s)
  | v => v

def numericKeys : List String := ["odds", "stake", "placed_at"]

/-- One field of a served entry. -/
def servedField (fl : Floats) (x : String × String) : String × Any fl :=
  (x.1, if numericKeys.contains x.1 then numericValue (.string x.2) else .string x.2)

def served (fl : Floats) (m : Message) : Table String (Any fl) :=
  (m.values.entries.foldl (fun e x => e.set (servedField fl x).1 (servedField fl x).2) Table.empty).set "id" (.string m.id)

/-- The entries answered, newest first. -/
def operatorPlacements (s : Desk fl) (v : String) : List (Table String (Any fl)) :=
  (s.stream.reverse.take (limitOf v)).map (served fl)

def str : Option (Any fl) → String
  | some (.string s) => s
  | _ => ""

/-- The type assertion to float64. -/
def float64 : Option (Any fl) → fl.F
  | some (.float64 x) => x
  | _ => fl.zero

def placementFromMap (m : Table String (Any fl)) : Placement fl where
  orderID := str (m.get? "order_id")
  matchID := str (m.get? "match_id")
  market := str (m.get? "market")
  side := str (m.get? "side")
  odds := float64 (m.get? "odds")
  stake := float64 (m.get? "stake")
  book := str (m.get? "book")
  status := str (m.get? "status")
  note := str (m.get? "note")
  placedAt := fl.toInt (float64 (m.get? "placed_at"))

/-- The values of a message as go-redis hands them over. -/
def Message.anys (fl : Floats) (m : Message) : Table String (Any fl) := m.values.mapVal .string

/-! ## A run of calls -/

def recordAll (s : Desk fl) (cs : List (Call fl)) : Desk fl := cs.foldl (fun s c => (recordPlacement s c).1) s

/-- The calls that record something. -/
def recorded (cs : List (Call fl)) : List (Call fl) := cs.filter (·.placement.marshals)

theorem recorded_cons {c : Call fl} (h : c.placement.marshals = true) (cs : List (Call fl)) :
    recorded (c :: cs) = c :: recorded cs := by
  rw [recorded, List.filter_cons, if_pos h, recorded]

theorem recorded_cons_refused {c : Call fl} (h : c.placement.marshals = false) (cs : List (Call fl)) :
    recorded (c :: cs) = recorded cs := by
  rw [recorded, List.filter_cons, if_neg (by simp [h]), recorded]

theorem recordPlacement_hash (s : Desk fl) {c : Call fl} (h : c.placement.marshals = true) :
    (recordPlacement s c).1.hash = s.hash.set c.placement.orderID c.placement := by
  rw [recordPlacement, if_pos h]

theorem recordPlacement_stream {s : Desk fl} {c : Call fl} (h : c.placement.marshals = true) (hroom : s.stream.length < maxLen) :
    (recordPlacement s c).1.stream = s.stream ++ [c.placement.message c.id] := by
  have hkeep : min c.trim ((s.stream ++ [c.placement.message c.id]).length - maxLen) = 0 := by
    rw [List.length_append, List.length_singleton]
    omega
  rw [recordPlacement, if_pos h]
  simp only [hkeep, List.drop_zero]

theorem recordPlacement_refused (s : Desk fl) {c : Call fl} (h : c.placement.marshals = false) :
    recordPlacement s c = (s, false) := by
  rw [recordPlacement, h]
  rfl

theorem recordAll_hash (s : Desk fl) (cs : List (Call fl)) :
    (recordAll s cs).hash = (recorded cs).foldl (fun t c => t.set c.placement.orderID c.placement) s.hash := by
  induction cs generalizing s with
  | nil => rfl
  | cons c cs ih =>
    rw [recordAll, List.foldl_cons]
    cases h : c.placement.marshals with
    | true =>
      rw [recorded_cons h, List.foldl_cons, ← recordPlacement_hash s h]
      exact ih _
    | false =>
      rw [recorded_cons_refused h, recordPlacement_refused s h]
      exact ih s

/-- The hash holds what was recorded last under each order id. -/
theorem hash_latest (s : Desk fl) (cs : List (Call fl)) (oid : String) :
    (recordAll s cs).hash.get? oid =
      (((recorded cs).reverse.find? (·.placement.orderID == oid)).map (·.placement)).or (s.hash.get? oid) := by
  rw [recordAll_hash, Table.get?_foldl_set]

/-- As long as there is room, the stream holds every placement in order. -/
theorem stream_messages {s : Desk fl} {cs : List (Call fl)} (hroom : s.stream.length + (recorded cs).length ≤ maxLen) :
    (recordAll s cs).stream = s.stream ++ (recorded cs).map fun c => c.placement.message c.id := by
  induction cs generalizing s with
  | nil => exact (List.append_nil _).symm
  | cons c cs ih =>
    rw [recordAll, List.foldl_cons]
    cases h : c.placement.marshals with
    | true =>
      rw [recorded_cons h, List.length_cons] at hroom
      have hstream := recordPlacement_stream (s := s) h (by omega)
      rw [recorded_cons h, List.map_cons, List.append_cons, ← hstream]
      apply ih
      rw [hstream, List.length_append, List.length_singleton]
      omega
    | false =>
      rw [recorded_cons_refused h] at hroom ⊢
      rw [recordPlacement_refused s h]
      exact ih hroom

theorem limitOf_le (v : String) : limitOf v ≤ 500 := by
  rw [limitOf]
  split
  rename_i n ok _
  split
  · omega
  · decide

/-! ## What an entry shows -/

/-- The entry shows every field of the placement, its numbers as float64s. -/
structure Shows (e : Table String (Any fl)) (p : Placement fl) : Prop where
  orderID : e.get? "order_id" = some (.string p.orderID)
  matchID : e.get? "match_id" = some (.string p.matchID)
  market : e.get? "market" = some (.string p.market)
  side : e.get? "side" = some (.string p.side)
  odds : e.get? "odds" = some (.float64 p.odds)
  stake : e.get? "stake" = some (.float64 p.stake)
  book : e.get? "book" = some (.string p.book)
  status : e.get? "status" = some (.string p.status)
  note : e.get? "note" = some (.string p.note)
  placedAt : e.get? "placed_at" = some (.float64 (fl.ofInt p.placedAt))

/-- The placements agree in every field, `placed_at` as a float64. -/
structure Alike (p q : Placement fl) : Prop where
  fields : { p with placedAt := q.placedAt } = q
  placedAt : fl.ofInt p.placedAt = fl.ofInt q.placedAt

theorem served_get (m : Message) {k : String} (h : k ≠ "id") :
    (served fl m).get? k = (m.values.get? k).map fun x => (servedField fl (k, x)).2 := by
  have hfold := m.values.foldl_at (fun e x => e.set (servedField fl x).1 (servedField fl x).2) (fun e => e.get? k) k
    (fun _ x => some (servedField fl (k, x)).2) (fun e x hx => Table.get?_set_ne e _ fun he => hx he.symm)
    (fun e x => Table.get?_set_same e k _) Table.empty
  rw [served, Table.get?_set_ne _ _ h, hfold]
  cases m.values.get? k <;> rfl

theorem served_text (id : String) (p : Placement fl) {k s : String} (hk : k ≠ "id") (hnum : numericKeys.contains k = false)
    (h : p.values.get? k = some (.string s)) : (served fl (p.message id)).get? k = some (.string s) := by
  have hval : (p.message id).values.get? k = some s := by
    rw [Placement.message, Table.get?_mapVal, h]
    rfl
  rw [served_get _ hk, hval, Option.map_some, servedField, hnum]
  rfl

theorem served_number (id : String) (p : Placement fl) {k : String} {v : Any fl} {x : fl.F} (hk : k ≠ "id")
    (hnum : numericKeys.contains k = true) (h : p.values.get? k = some v) (hparse : fl.parseFloat v.sent = some x) :
    (served fl (p.message id)).get? k = some (.float64 x) := by
  have hval : (p.message id).values.get? k = some v.sent := by
    rw [Placement.message, Table.get?_mapVal, h]
    rfl
  rw [served_get _ hk, hval, Option.map_some, servedField, hnum, if_pos rfl, numericValue, hparse]
  rfl

/-- What the handler serves for a placement's message shows the placement. -/
theorem served_shows (hfl : fl.Lawful) (id : String) {p : Placement fl} (h : p.marshals = true) :
    Shows (served fl (p.message id)) p := by
  rw [Placement.marshals, Bool.and_eq_true] at h
  have hodds := hfl.parse_format _ h.1
  have hstake := hfl.parse_format _ h.2
  have hplaced := hfl.parse_itoa p.placedAt
  exact {
    orderID := served_text id p (by decide) (by decide) (by simp [Placement.values, Table.get?])
    matchID := served_text id p (by decide) (by decide) (by simp [Placement.values, Table.get?])
    market := served_text id p (by decide) (by decide) (by simp [Placement.values, Table.get?])
    side := served_text id p (by decide) (by decide) (by simp [Placement.values, Table.get?])
    odds := served_number (v := .float64 p.odds) id p (by decide) (by decide) (by simp [Placement.values, Table.get?]) hodds
    stake := served_number (v := .float64 p.stake) id p (by decide) (by decide) (by simp [Placement.values, Table.get?]) hstake
    book := served_text id p (by decide) (by decide) (by simp [Placement.values, Table.get?])
    status := served_text id p (by decide) (by decide) (by simp [Placement.values, Table.get?])
    note := served_text id p (by decide) (by decide) (by simp [Placement.values, Table.get?])
    placedAt := served_number (v := .int64 p.placedAt) id p (by decide) (by decide) (by simp [Placement.values, Table.get?])
      hplaced }

/-- Two placements that one entry shows agree. -/
theorem Shows.alike {e : Table String (Any fl)} {p q : Placement fl} (hp : Shows e p) (hq : Shows e q) : Alike p q := by
  obtain ⟨⟩ := p
  obtain ⟨⟩ := q
  have h1 := hp.orderID.symm.trans hq.orderID
  have h2 := hp.matchID.symm.trans hq.matchID
  have h3 := hp.market.symm.trans hq.market
  have h4 := hp.side.symm.trans hq.side
  have h5 := hp.odds.symm.trans hq.odds
  have h6 := hp.stake.symm.trans hq.stake
  have h7 := hp.book.symm.trans hq.book
  have h8 := hp.status.symm.trans hq.status
  have h9 := hp.note.symm.trans hq.note
  have h10 := hp.placedAt.symm.trans hq.placedAt
  simp only [Option.some.injEq, Any.string.injEq, Any.float64.injEq] at h1 h2 h3 h4 h5 h6 h7 h8 h9 h10
  subst h1 h2 h3 h4 h5 h6 h7 h8 h9
  exact ⟨rfl, h10⟩

theorem Shows.of_alike {e : Table String (Any fl)} {p q : Placement fl} (hp : Shows e p) (h : Alike p q) : Shows e q := by
  obtain ⟨hfields, hplaced⟩ := h
  rw [← hfields]
  exact { hp with placedAt := by rw [hp.placedAt, hplaced] }

/-! ## A placement from its own entry -/

theorem recordPlacement_last (s : Desk fl) {c : Call fl} (h : c.placement.marshals = true) :
    (recordPlacement s c).1.stream.getLast? = some (c.placement.message c.id) := by
  have hshort : ¬ (s.stream ++ [c.placement.message c.id]).length ≤
      min c.trim ((s.stream ++ [c.placement.message c.id]).length - maxLen) := by
    rw [List.length_append, List.length_singleton, maxLen]
    omega
  rw [recordPlacement, if_pos h]
  simp only [List.getLast?_drop, if_neg hshort, List.getLast?_concat]

/-- The texts come back; no assertion to float64 holds of one. -/
theorem placementFromMap_message (id : String) (p : Placement fl) :
    placementFromMap ((p.message id).anys fl) = { p with odds := fl.zero, stake := fl.zero, placedAt := fl.toInt fl.zero } := by
  simp [placementFromMap, Message.anys, Placement.message, Placement.values, Table.mapVal, Table.get?, Any.sent, str, float64]

theorem unpriced_eq {p : Placement fl} (hodds : p.odds = fl.zero) (hstake : p.stake = fl.zero) (hplaced : p.placedAt = 0) :
    { p with odds := fl.zero, stake := fl.zero, placedAt := 0 } = p := by
  obtain ⟨⟩ := p
  simp only at hodds hstake hplaced
  rw [hodds, hstake, hplaced]

/-- A placement is rebuilt from the entry appended for it iff there is no number to lose. -/
theorem placement_rebuilt_iff (hfl : fl.Lawful) (s : Desk fl) {c : Call fl} (h : c.placement.marshals = true) :
    ∃ m, (recordPlacement s c).1.stream.getLast? = some m ∧
      (placementFromMap (m.anys fl) = c.placement ↔
        c.placement.odds = fl.zero ∧ c.placement.stake = fl.zero ∧ c.placement.placedAt = 0) := by
  refine ⟨_, recordPlacement_last s h, ?_⟩
  rw [placementFromMap_message, hfl.toInt_zero]
  refine ⟨fun heq => ?_, fun hzero => ?_⟩
  · have hodds := congrArg Placement.odds heq
    have hstake := congrArg Placement.stake heq
    have hplaced := congrArg Placement.placedAt heq
    exact ⟨hodds.symm, hstake.symm, hplaced.symm⟩
  · obtain ⟨hodds, hstake, hplaced⟩ := hzero
    exact unpriced_eq hodds hstake hplaced

/-! ## A price -/

/-- Numbers that are all whole, in their decimal texts. -/
def wholes : Floats where
  F := Int64
  zero := 0
  finite := fun _ => true
  ofInt := id
  toInt := id
  formatFloat := fun n => Text.itoa n.toInt
  parseFloat := fun s => if (Text.atoi s).2 then some (Int64.ofInt (Text.atoi s).1) else none

theorem wholes_read (n : Int64) : wholes.parseFloat (Text.itoa n.toInt) = some n := by
  have hread := Text.atoi_itoa (Int64.le_toInt n) (Int64.toInt_lt n)
  simp only [wholes, hread, if_true]
  exact congrArg some (Int64.ofInt_toInt n)

theorem wholes_lawful : wholes.Lawful where
  toInt_zero := rfl
  parse_format := fun x _ => wholes_read x
  parse_itoa := wholes_read

def evens : Placement wholes :=
  ⟨"ord-1", "m1", "1H_1X2", "home", (2 : Int64), (10 : Int64), "helabet", "placed", "", 1700000000000⟩

theorem evens_rebuilt : ∃ m, (recordPlacement (noPlacements wholes) ⟨"1-0", 0, evens⟩).1.stream.getLast? = some m ∧
    (placementFromMap (m.anys wholes) = evens ↔ evens.odds = wholes.zero ∧ evens.stake = wholes.zero ∧ evens.placedAt = 0) :=
  placement_rebuilt_iff wholes_lawful (noPlacements wholes) (c := ⟨"1-0", 0, evens⟩) rfl

/-- Odds of 2 come back as 0. -/
theorem evens_come_back_without_a_price : evens.marshals = true ∧ wholes.Lawful ∧
    ∃ m, (recordPlacement (noPlacements wholes) ⟨"1-0", 0, evens⟩).1.stream.getLast? = some m ∧
      (placementFromMap (m.anys wholes)).odds = (0 : Int64) ∧ placementFromMap (m.anys wholes) ≠ evens := by
  have hlast := recordPlacement_last (noPlacements wholes) (c := ⟨"1-0", 0, evens⟩) rfl
  refine ⟨rfl, wholes_lawful, _, hlast, ?_, ?_⟩
  · rw [placementFromMap_message]
    rfl
  · rw [placementFromMap_message]
    intro heq
    have hodds : (0 : Int64) = 2 := congrArg Placement.odds heq
    exact absurd hodds (by decide)

end CasuyaLive.Execution.Operator
