/-
  CasuyaLive.Execution.Live.Frames — the settlement loop's end of a frame
  (execution-engine-go, internal/broker/client.go: `settleLoop`, with the field names of
  settle.go).

  `decodeSettlement` is `json.Unmarshal` into a `Settlement`: a field goes by its name in
  any case, one that the frame lacks keeps its zero value, null leaves it as it is (the
  orders become empty), and a value of another type fails the frame. The frame is the value
  its text stands for; numbers are exact.
-/

import CasuyaLive.Execution.Live.Broker
import CasuyaLive.Execution.Live.Envelope

namespace CasuyaLive.Execution.Live

open CasuyaLive.Lib
open Json (Wire)

def textOr (cur : String) : Wire → Option String
  | .null => some cur
  | .bool _ => none
  | .num _ => none
  | .str us => some (Json.toText us)
  | .arr _ => none
  | .obj _ => none

def floatOr (cur : ℚ) : Wire → Option ℚ
  | .null => some cur
  | .bool _ => none
  | .num q => some q
  | .str _ => none
  | .arr _ => none
  | .obj _ => none

/-- A 64-bit integer; a fraction fails. -/
def intOr (cur : Int) : Wire → Option Int
  | .null => some cur
  | .bool _ => none
  | .num q => if q.den = 1 ∧ -2 ^ 63 ≤ q.num ∧ q.num < 2 ^ 63 then some q.num else none
  | .str _ => none
  | .arr _ => none
  | .obj _ => none

def boolOr (cur : Bool) : Wire → Option Bool
  | .null => some cur
  | .bool b => some b
  | .num _ => none
  | .str _ => none
  | .arr _ => none
  | .obj _ => none

/-- An object, field by field. -/
def structOr {α : Type} (set : α → String → Wire → Option α) (cur : α) : Wire → Option α
  | .null => some cur
  | .bool _ => none
  | .num _ => none
  | .str _ => none
  | .arr _ => none
  | .obj fields => fields.foldlM (fun x f => set x (Json.toText f.1) f.2) cur

def setScore (s : Score) (key : String) (v : Wire) : Option Score :=
  if named "home" key then (floatOr s.home v).map fun x => { s with home := x }
  else if named "away" key then (floatOr s.away v).map fun x => { s with away := x }
  else some s

def setOrder (o : SettlementOrder) (key : String) (v : Wire) : Option SettlementOrder :=
  if named "order_id" key then (textOr o.orderID v).map fun x => { o with orderID := x }
  else if named "market" key then (textOr o.market v).map fun x => { o with market := x }
  else if named "side" key then (textOr o.side v).map fun x => { o with side := x }
  else if named "odds" key then (floatOr o.odds v).map fun x => { o with odds := x }
  else if named "stake" key then (floatOr o.stake v).map fun x => { o with stake := x }
  else some o

def readOrders : Wire → Option (List SettlementOrder)
  | .null => some []
  | .bool _ => none
  | .num _ => none
  | .str _ => none
  | .arr xs => xs.mapM (structOr setOrder ⟨"", "", "", 0, 0⟩)
  | .obj _ => none

def setSettlement (st : Settlement) (key : String) (v : Wire) : Option Settlement :=
  if named "type" key then (textOr "" v).map fun _ => st
  else if named "cycle" key then (intOr st.cycle v).map fun x => { st with cycle := x }
  else if named "match_id" key then (textOr st.matchID v).map fun x => { st with matchID := x }
  else if named "final_score" key then (structOr setScore st.finalScore v).map fun x => { st with finalScore := x }
  else if named "orders" key then (readOrders v).map fun x => { st with orders := x }
  else if named "source" key then (textOr st.source v).map fun x => { st with source := x }
  else if named "verified" key then (boolOr st.verified v).map fun x => { st with verified := x }
  else some st

def decodeSettlement (frame : Wire) : Option Settlement :=
  structOr setSettlement ⟨0, "", ⟨0, 0⟩, [], "", false⟩ frame

/-! ## Fields by their names -/

theorem structOr_object {α : Type} (set : α → String → Wire → Option α) (cur : α) (fields : List (String × Wire)) :
    structOr set cur (Json.object fields) = fields.foldlM (fun x f => set x f.1 f.2) cur := by
  simp only [Json.object, structOr, List.foldlM_map, Json.toText_ofString]

theorem setScore_spec (s : Score) (v : Wire) :
    setScore s "home" v = (floatOr s.home v).map (fun x => { s with home := x }) ∧
    setScore s "away" v = (floatOr s.away v).map (fun x => { s with away := x }) :=
  ⟨rfl, rfl⟩

theorem setOrder_spec (o : SettlementOrder) (v : Wire) :
    setOrder o "order_id" v = (textOr o.orderID v).map (fun x => { o with orderID := x }) ∧
    setOrder o "market" v = (textOr o.market v).map (fun x => { o with market := x }) ∧
    setOrder o "side" v = (textOr o.side v).map (fun x => { o with side := x }) ∧
    setOrder o "odds" v = (floatOr o.odds v).map (fun x => { o with odds := x }) ∧
    setOrder o "stake" v = (floatOr o.stake v).map (fun x => { o with stake := x }) :=
  ⟨rfl, rfl, rfl, rfl, rfl⟩

theorem setSettlement_spec (st : Settlement) (v : Wire) :
    setSettlement st "type" v = (textOr "" v).map (fun _ => st) ∧
    setSettlement st "cycle" v = (intOr st.cycle v).map (fun x => { st with cycle := x }) ∧
    setSettlement st "match_id" v = (textOr st.matchID v).map (fun x => { st with matchID := x }) ∧
    setSettlement st "final_score" v = (structOr setScore st.finalScore v).map (fun x => { st with finalScore := x }) ∧
    setSettlement st "orders" v = (readOrders v).map (fun x => { st with orders := x }) :=
  ⟨rfl, rfl, rfl, rfl, rfl⟩

end CasuyaLive.Execution.Live
