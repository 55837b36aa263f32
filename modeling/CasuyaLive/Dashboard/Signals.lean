/-
  CasuyaLive.Dashboard.Signals — the placements on the operator desk (web-interface-js,
  frontend/src/app/signals/page.jsx: `load`; frontend/src/lib/engine.js: `fetchPlacements`).

  The page assigns the entries to their order ids in the order served, the newest first: of
  several placements under one id the oldest stays, where the hash keeps the newest.
  `placements_agree_iff`: page and hash agree iff under every id the first placement and the
  last are alike (`a_void_looks_placed`).
-/

import CasuyaLive.Execution.Operator

namespace CasuyaLive.Dashboard

open CasuyaLive.Lib CasuyaLive.Execution.Operator

variable {fl : Floats}

/-- `e.order_id`; none of the fields served as numbers. -/
def orderID (e : Table String (Any fl)) : String :=
  match e.get? "order_id" with
  | some (.string s) => s
  | _ => "undefined"

/-- `placements` as `load` sets it. -/
def placementsMap (entries : List (Table String (Any fl))) : Table String (Table String (Any fl)) :=
  entries.foldl (fun pm e => pm.set (orderID e) e) Table.empty

/-! ## Over a run of calls -/

def earliest (cs : List (Call fl)) (oid : String) : Option (Placement fl) :=
  ((recorded cs).find? (·.placement.orderID == oid)).map (·.placement)

def latest (cs : List (Call fl)) (oid : String) : Option (Placement fl) :=
  ((recorded cs).reverse.find? (·.placement.orderID == oid)).map (·.placement)

/-- What the page has after the calls, for the limit it asked for. -/
def shown (cs : List (Call fl)) (v : String) : Table String (Table String (Any fl)) :=
  placementsMap (operatorPlacements (recordAll (noPlacements fl) cs) v)

/-- Hash and page have the latest placement of every order, and of no other. -/
def Agrees (cs : List (Call fl)) (v : String) : Prop :=
  ∀ oid, (recordAll (noPlacements fl) cs).hash.get? oid = latest cs oid ∧
    Option.Rel Shows ((shown cs v).get? oid) (latest cs oid)

theorem orderID_served (id : String) (p : Placement fl) : orderID (served fl (p.message id)) = p.orderID := by
  rw [orderID, served_text (s := p.orderID) id p (by decide) (by decide) (by simp [Placement.values, Table.get?])]

/-- A run that fits in the limit is served whole. -/
theorem served_all {cs : List (Call fl)} {v : String} (hfit : (recorded cs).length ≤ limitOf v) :
    operatorPlacements (recordAll (noPlacements fl) cs) v =
      (recorded cs).reverse.map fun c => served fl (c.placement.message c.id) := by
  have hlimit := limitOf_le v
  have hroom : (noPlacements fl).stream.length + (recorded cs).length ≤ maxLen := by
    simp only [noPlacements, List.length_nil, maxLen]
    omega
  have hstream := stream_messages hroom
  rw [operatorPlacements, hstream, noPlacements, List.nil_append, ← List.map_reverse, List.take_of_length_le, List.map_map]
  · rfl
  · rw [List.length_map, List.length_reverse]
    exact hfit

/-- The page shows the earliest placement of an order. -/
theorem shown_earliest {cs : List (Call fl)} {v : String} (hfit : (recorded cs).length ≤ limitOf v) (oid : String) :
    (shown cs v).get? oid =
      ((recorded cs).find? (·.placement.orderID == oid)).map fun c => served fl (c.placement.message c.id) := by
  rw [shown, served_all hfit, placementsMap, List.foldl_map]
  simp only [orderID_served]
  rw [Table.get?_foldl_set, List.reverse_reverse, Table.get?_empty, Option.or_none]

theorem hash_is_latest (cs : List (Call fl)) (oid : String) :
    (recordAll (noPlacements fl) cs).hash.get? oid = latest cs oid := by
  rw [hash_latest, noPlacements, Table.get?_empty, Option.or_none, latest]

theorem recorded_marshals {cs : List (Call fl)} {test : Call fl → Bool} {c : Call fl} (h : (recorded cs).find? test = some c) :
    c.placement.marshals = true := (List.mem_filter.mp (List.mem_of_find?_eq_some h)).2

/-- An entry shows another placement than its own iff the two are alike. -/
theorem served_shows_iff (hfl : fl.Lawful) (id : String) {p : Placement fl} (h : p.marshals = true) (q : Placement fl) :
    Shows (served fl (p.message id)) q ↔ Alike p q :=
  ⟨fun hq => (served_shows hfl id h).alike hq, fun hq => (served_shows hfl id h).of_alike hq⟩

/-- The page agrees with the hash iff the first placement of every order is like the last. -/
theorem placements_agree_iff (hfl : fl.Lawful) {cs : List (Call fl)} {v : String} (hfit : (recorded cs).length ≤ limitOf v) :
    Agrees cs v ↔ ∀ oid p q, earliest cs oid = some p → latest cs oid = some q → Alike p q := by
  refine ⟨fun h oid p q hp hq => ?_, fun h oid => ⟨hash_is_latest cs oid, ?_⟩⟩
  · rw [earliest, Option.map_eq_some_iff] at hp
    obtain ⟨c, hc, rfl⟩ := hp
    have hrel := (h oid).2
    rw [shown_earliest hfit, hc, hq, Option.map_some] at hrel
    cases hrel with
    | some hshows => exact (served_shows_iff hfl c.id (recorded_marshals hc) q).mp hshows
  · rw [shown_earliest hfit]
    cases hc : (recorded cs).find? (·.placement.orderID == oid) with
    | none =>
      have hnone : (recorded cs).reverse.find? (·.placement.orderID == oid) = none := by
        rw [List.find?_eq_none] at hc ⊢
        exact fun x hx => hc x (List.mem_reverse.mp hx)
      rw [latest, hnone]
      exact Option.Rel.none
    | some c =>
      have hsome : ((recorded cs).reverse.find? (·.placement.orderID == oid)).isSome := by
        have hkey := List.find?_some hc
        rw [List.find?_isSome]
        exact ⟨c, List.mem_reverse.mpr (List.mem_of_find?_eq_some hc), hkey⟩
      obtain ⟨d, hd⟩ := Option.isSome_iff_exists.mp hsome
      have hlike := h oid c.placement d.placement (by rw [earliest, hc, Option.map_some]) (by rw [latest, hd, Option.map_some])
      rw [latest, hd, Option.map_some, Option.map_some]
      exact Option.Rel.some ((served_shows_iff hfl c.id (recorded_marshals hc) d.placement).mpr hlike)

/-! ## A placement voided -/

/-- Placed, and voided later. -/
def voided : List (Call wholes) := [⟨"1-0", 0, evens⟩, ⟨"2-0", 0, { evens with status := "void", placedAt := 1700000060000 }⟩]

theorem evens_shown : Agrees [⟨"1-0", 0, evens⟩] "60" := by
  apply (placements_agree_iff wholes_lawful (by decide)).mpr
  intro oid p q hp hq
  have hsame : earliest [⟨"1-0", 0, evens⟩] oid = latest [⟨"1-0", 0, evens⟩] oid := rfl
  rw [hsame, hq] at hp
  obtain rfl := Option.some.inj hp
  exact ⟨rfl, rfl⟩

/-- The hash says void, the page placed. -/
theorem a_void_looks_placed : wholes.Lawful ∧ (recorded voided).length ≤ limitOf "60" ∧ ¬ Agrees voided "60" ∧
    ((recordAll (noPlacements wholes) voided).hash.get? "ord-1").map (·.status) = some "void" ∧
      ∃ e, (shown voided "60").get? "ord-1" = some e ∧ e.get? "status" = some (.string "placed") := by
  have hfit : (recorded voided).length ≤ limitOf "60" := by decide
  have hshown := shown_earliest hfit "ord-1"
  have hplaced := (served_shows wholes_lawful "1-0" (p := evens) rfl).status
  refine ⟨wholes_lawful, hfit, fun h => ?_, ?_, _, hshown, hplaced⟩
  · have hrel := (h "ord-1").2
    rw [hshown] at hrel
    cases hrel with
    | some hvoid => exact absurd (hplaced.symm.trans hvoid.status) (by simp [evens])
  · rw [hash_is_latest]
    rfl

end CasuyaLive.Dashboard
