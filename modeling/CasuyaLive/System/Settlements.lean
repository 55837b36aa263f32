/-
  CasuyaLive.System.Settlements — the bookmaker's settlement frames and the broker that
  grades them (mock-vendor, server.js; execution-engine-go, internal/broker/client.go,
  settle.go).

  `Contract`: an order that left the book was carried by one frame; the broker's grading
  gives every 1X2 order of a frame its outcome under the frame's score; and the session is
  what these scores make it. The frame has no "verified" field, so the broker grades nothing
  from it, and a book emptied while Redis is away goes nowhere: `contract_iff`, the contract
  holds throughout a run exactly if every FULLTIME met an empty book, or a ready Redis and
  no 1X2 order. As built: `a_home_bet_goes_ungraded`.
-/

import CasuyaLive.Execution.Live.Frames
import CasuyaLive.Vendor.Server

namespace CasuyaLive.System

open CasuyaLive.Lib CasuyaLive.Execution
open CasuyaLive.Vendor (Server Published Event idOf fmt orders settlementWire publishSettlement cycleAt JsDate)
open Live (Settlement decodeSettlement settledOf)

/-! ## Decoding what was published -/

theorem intOr_cycle (cur : Int) (boot now : JsDate) :
    Live.intOr cur (.num ((cycleAt boot now : Int) : ℚ)) = some (cycleAt boot now) := by
  have h := Vendor.cycleAt_bound boot now
  rw [Live.intOr, Rat.den_intCast, Rat.num_intCast, if_pos]
  refine ⟨rfl, ?_, ?_⟩ <;> omega

/-- The order as its frame quotes it. -/
def quotedOrder (o : SettlementOrder) : SettlementOrder := { o with odds := fmt o.odds, stake := fmt o.stake }

theorem decode_orderWire (o : SettlementOrder) :
    Live.structOr Live.setOrder ⟨"", "", "", 0, 0⟩ (Vendor.orderWire o) = some (quotedOrder o) := by
  have hfields := Live.setOrder_spec
  simp only [forall_and] at hfields
  obtain ⟨h1, h2, h3, h4, h5⟩ := hfields
  simp only [Vendor.orderWire, Live.structOr_object, Json.text, List.foldlM_cons, List.foldlM_nil, h1, h2, h3, h4, h5,
    Live.textOr, Live.floatOr, Json.toText_ofString, Option.map_some, Option.bind_eq_bind, Option.bind_some]
  rfl

theorem decode_orders (os : List SettlementOrder) : Live.readOrders (.arr (os.map Vendor.orderWire)) = some (os.map quotedOrder) := by
  show (os.map Vendor.orderWire).mapM _ = _
  induction os with
  | nil => rfl
  | cons o os ih => simp only [List.map_cons, List.mapM_cons, decode_orderWire, ih, Option.bind_eq_bind, Option.bind_some]; rfl

theorem decode_settlementWire (boot now : JsDate) (score : Live.Score) (os : List SettlementOrder) :
    decodeSettlement (settlementWire (cycleAt boot now) score os) =
      some ⟨cycleAt boot now, "epl-2026-0042", score, os.map quotedOrder, "", false⟩ := by
  have hfields := Live.setSettlement_spec
  have hscores := Live.setScore_spec
  simp only [forall_and] at hfields hscores
  obtain ⟨h1, h2, h3, h4, h5⟩ := hfields
  obtain ⟨hs1, hs2⟩ := hscores
  simp only [decodeSettlement, settlementWire, Live.structOr_object, Json.text, List.foldlM_cons, List.foldlM_nil, h1, h2,
    h3, h4, h5, hs1, hs2, Live.textOr, Live.floatOr, intOr_cycle, decode_orders, Json.toText_ofString, Option.map_some,
    Option.bind_eq_bind, Option.bind_some]
  rfl

/-! ## The contract -/

/-- A side that the final score decides. -/
def is1X2 (side : String) : Prop := side = "home" ∨ side = "draw" ∨ side = "away"

instance (side : String) : Decidable (is1X2 side) := inferInstanceAs (Decidable (_ ∨ _ ∨ _))

def carriedBy (p : Published) : List String :=
  match decodeSettlement p.frame with
  | some st => st.orders.map (·.orderID)
  | none => []

/-- The orders of all frames. -/
def carried (v : Server) : List String := v.published.flatMap carriedBy

/-- The orders of a frame, each with its outcome under the score of the FULLTIME. -/
def owed (p : Published) : Totals :=
  match decodeSettlement p.frame with
  | some st => settlementTotals (settleOrders st.orders p.score.home p.score.away st.source true)
  | none => 0

def gradeFrame (b : Live.Broker) (p : Published) : Live.Broker :=
  match decodeSettlement p.frame with
  | some st => Live.grade b st
  | none => b

/-- The session of a broker that graded every frame. -/
def session (v : Server) : Totals := (v.published.foldl gradeFrame (Live.start 0)).session

def GradedByScore (p : Published) : Prop :=
  ∃ st, decodeSettlement p.frame = some st ∧
    ∀ so ∈ settledOf st, is1X2 so.side → so.result = outcomeFor so.side p.score.home p.score.away

structure Contract (v : Server) : Prop where
  carried : ∀ n < v.orderSeq, idOf n ∉ v.book.keys → (carried v).count (idOf n) = 1
  graded : ∀ p ∈ v.published, GradedByScore p
  session : session v = (v.published.map owed).sum

/-! ## The session -/

theorem void_pnl (stake odds : ℚ) : pnlFor .void stake odds = 0 := unresolved_pnl stake odds

/-- Orders without an outcome count as voids, graded or not. -/
theorem settled_totals {st : Settlement} {home away : ℚ}
    (h : ∀ so ∈ settledOf st, is1X2 so.side → so.result = outcomeFor so.side home away) :
    settlementTotals (settledOf st) = settlementTotals (settleOrders st.orders home away st.source true) := by
  rw [settlementTotals_eq, settlementTotals_eq, settledOf, settleOrders, settleOrders, List.map_map, List.map_map]
  congr 1
  apply List.map_congr_left
  intro o ho
  have hresult := h _ (List.mem_map_of_mem ho)
  show delta (settleOrder _ _ _ _ o) = delta (settleOrder home away st.source true o)
  by_cases hside : is1X2 o.side
  · have hr : (settleOrder st.finalScore.home st.finalScore.away st.source st.verified o).result =
        outcomeFor o.side home away := hresult hside
    simp only [settleOrder] at hr ⊢
    simp only [delta, hr, if_true]
  · have hvoid : ∀ home away : ℚ, outcomeFor o.side home away = .void := by
      intro home away
      simp only [is1X2, not_or] at hside
      simp [outcomeFor, hside]
    cases hv : st.verified <;> simp [settleOrder, delta, hvoid, void_pnl, unresolved_pnl]

theorem session_eq {v : Server} (h : ∀ p ∈ v.published, GradedByScore p) : session v = (v.published.map owed).sum := by
  have hfold : ∀ (ps : List Published) (b : Live.Broker), (∀ p ∈ ps, GradedByScore p) →
      (ps.foldl gradeFrame b).session = b.session + (ps.map owed).sum := by
    intro ps
    induction ps with
    | nil => intro b _; exact (add_zero _).symm
    | cons p ps ih =>
      intro b hps
      obtain ⟨st, hdecode, hgraded⟩ := hps p List.mem_cons_self
      have hone : (gradeFrame b p).session = b.session + owed p := by
        rw [gradeFrame, owed, hdecode]
        show b.session + settlementTotals (settledOf st) = _
        rw [settled_totals hgraded]
      rw [List.foldl_cons, ih _ fun q hq => hps q (List.mem_cons_of_mem _ hq), hone, List.map_cons, List.sum_cons, add_assoc]
  exact (hfold v.published (Live.start 0) h).trans (zero_add _)

/-! ## The book -/

/-- Every id was given out once, and is in the book or in one frame at most. -/
structure Booked (v : Server) : Prop where
  keyed : ∀ x ∈ v.book.entries, x.2.orderID = x.1
  issued : ∀ id ∈ v.book.keys ++ carried v, ∃ n < v.orderSeq, id = idOf n
  once : (v.book.keys ++ carried v).Nodup

theorem orders_ids {v : Server} (h : Booked v) : (orders v).map (·.orderID) = v.book.keys := by
  rw [orders, List.map_map]
  exact List.map_congr_left h.keyed

theorem new_id {v : Server} (h : Booked v) : idOf v.orderSeq ∉ v.book.keys ++ carried v := by
  intro hm
  obtain ⟨n, hn, he⟩ := h.issued _ hm
  have := Vendor.idOf_inj he
  omega

theorem fill_keys {v : Server} (h : Booked v) (market side : String) (odds stake : ℚ) :
    (Vendor.fill v market side odds stake).book.keys = v.book.keys ++ [idOf v.orderSeq] := by
  apply Table.keys_set_new
  by_contra hget
  obtain ⟨o, ho⟩ := Option.ne_none_iff_exists'.mp hget
  exact new_id h (List.mem_append_left _ ((v.book.mem_keys _).mpr ⟨o, ho⟩))

/-- The orders of the book leave it one by one. -/
theorem emptied {v : Server} (h : Booked v) :
    ((orders v).foldl (fun book o => book.erase o.orderID) v.book).keys = [] := by
  have herase : ∀ (os : List SettlementOrder) (book : Table String SettlementOrder),
      (os.foldl (fun book o => book.erase o.orderID) book).keys = book.keys.filter fun id => !(os.map (·.orderID)).contains id := by
    intro os
    induction os with
    | nil => intro book; simp
    | cons o os ih =>
      intro book
      rw [List.foldl_cons, ih, Table.keys_erase, List.filter_filter]
      apply List.filter_congr
      intro id _
      rw [List.map_cons, List.contains_cons, Bool.not_or, Bool.and_comm]
      rfl
  rw [herase, orders_ids h, List.filter_eq_nil_iff]
  intro id hid
  simp [hid]

theorem carried_published {v : Server} (h : Booked v) (boot now : JsDate) (score : Live.Score) :
    carriedBy ⟨settlementWire (cycleAt boot now) score (orders v), score⟩ = v.book.keys := by
  rw [carriedBy, decode_settlementWire]
  show ((orders v).map quotedOrder).map (·.orderID) = _
  rw [List.map_map]
  exact orders_ids h

/-- What a FULLTIME leaves of a book with orders in it. -/
theorem fulltime_spec {v : Server} (h : Booked v) (hne : orders v ≠ []) (boot now : JsDate) (score : Live.Score)
    (ready : Bool) :
    let v' := publishSettlement v (cycleAt boot now) score ready
    v'.book.keys = [] ∧ v'.orderSeq = v.orderSeq ∧ carried v' = carried v ++ (if ready then v.book.keys else []) := by
  have hfull : (orders v).isEmpty = false := by simpa using hne
  simp only [publishSettlement, hfull, Bool.false_eq_true, if_false]
  refine ⟨emptied h, trivial, ?_⟩
  cases ready with
  | true =>
    show (v.published ++ [_]).flatMap carriedBy = carried v ++ v.book.keys
    rw [List.flatMap_append, List.flatMap_singleton, carried_published h]
    rfl
  | false => exact (List.append_nil _).symm

theorem entries_of_keys {v : Server} (h : v.book.keys = []) : v.book.entries = [] := List.map_eq_nil_iff.mp h

theorem fill_booked {v : Server} (h : Booked v) (market side : String) (odds stake : ℚ) :
    Booked (Vendor.fill v market side odds stake) := by
  have hkeys := fill_keys h market side odds stake
  have hcarried : carried (Vendor.fill v market side odds stake) = carried v := rfl
  refine ⟨?_, ?_, ?_⟩
  · intro x hx
    obtain ⟨k, o⟩ := x
    have hget := (Table.mem_iff _ _ _).mp hx
    simp only [Vendor.fill, Table.get?_set] at hget
    split at hget
    · rename_i hk
      cases hget
      exact hk.symm
    · exact h.keyed _ ((Table.mem_iff _ _ _).mpr hget)
  · intro id hid
    show ∃ n < v.orderSeq + 1, id = idOf n
    rw [hkeys, hcarried] at hid
    by_cases hnew : id = idOf v.orderSeq
    · exact ⟨v.orderSeq, Nat.lt_succ_self _, hnew⟩
    · have hold : id ∈ v.book.keys ++ carried v := by
        simp only [List.mem_append, List.mem_singleton, hnew, or_false] at hid ⊢
        exact hid
      obtain ⟨n, hn, he⟩ := h.issued id hold
      exact ⟨n, by omega, he⟩
  · rw [hkeys, hcarried]
    have hperm : (v.book.keys ++ [idOf v.orderSeq] ++ carried v).Perm (idOf v.orderSeq :: (v.book.keys ++ carried v)) := by
      rw [List.append_assoc]
      exact List.perm_middle
    exact hperm.nodup_iff.mpr (List.nodup_cons.mpr ⟨new_id h, h.once⟩)

theorem fulltime_booked {v : Server} (h : Booked v) (boot now : JsDate) (score : Live.Score) (ready : Bool) :
    Booked (publishSettlement v (cycleAt boot now) score ready) := by
  by_cases hne : orders v = []
  · simpa [publishSettlement, hne] using h
  · obtain ⟨hkeys, hseq, hcarried⟩ := fulltime_spec h hne boot now score ready
    have hsub : (carried v ++ if ready then v.book.keys else []).Sublist (carried v ++ v.book.keys) := by
      cases ready
      · simp
      · simp
    refine ⟨?_, ?_, ?_⟩
    · rw [entries_of_keys hkeys]
      exact fun x hx => absurd hx List.not_mem_nil
    · rw [hkeys, hseq, hcarried, List.nil_append]
      intro id hid
      exact h.issued id (List.perm_append_comm.mem_iff.mp (hsub.subset hid))
    · rw [hkeys, hcarried, List.nil_append]
      exact (List.nodup_append_comm.mp h.once).sublist hsub

theorem step_booked (boot : JsDate) {v : Server} (h : Booked v) (e : Event) : Booked (Vendor.step boot v e) := by
  cases e with
  | fill market side odds stake => exact fill_booked h market side odds stake
  | fulltime score now ready => exact fulltime_booked h boot now score ready

/-! ## A step and the contract -/

/-- What a FULLTIME should find. -/
def Harmless (v : Server) : Event → Prop
  | .fill _ _ _ _ => True
  | .fulltime _ _ ready => orders v = [] ∨ (ready = true ∧ ∀ o ∈ orders v, ¬ is1X2 o.side)

theorem fill_contract {v : Server} (h : Booked v) (hc : Contract v) (market side : String) (odds stake : ℚ) :
    Contract (Vendor.fill v market side odds stake) := by
  refine ⟨?_, hc.graded, hc.session⟩
  intro n hn hout
  rw [fill_keys h] at hout
  have hne : n ≠ v.orderSeq := by
    intro heq
    subst heq
    exact hout (by simp)
  have hlt : n < v.orderSeq := by
    have : n < v.orderSeq + 1 := hn
    omega
  exact hc.carried n hlt fun hm => hout (List.mem_append_left _ hm)

theorem outcome_resolved (side : String) (home away : ℚ) : outcomeFor side home away ≠ .unresolved := by
  unfold outcomeFor
  repeat' split
  all_goals exact nofun

/-- Without a "verified" field every result is unresolved. -/
theorem graded_iff (v : Server) (boot now : JsDate) (score : Live.Score) :
    GradedByScore ⟨settlementWire (cycleAt boot now) score (orders v), score⟩ ↔ ∀ o ∈ orders v, ¬ is1X2 o.side := by
  rw [GradedByScore, decode_settlementWire]
  constructor
  · intro h o ho hside
    obtain ⟨st, hst, hgraded⟩ := h
    cases hst
    have hmem : settleOrder score.home score.away "" false (quotedOrder o) ∈
        settleOrders ((orders v).map quotedOrder) score.home score.away "" false :=
      List.mem_map_of_mem (List.mem_map_of_mem ho)
    have hresult : Result.unresolved = outcomeFor o.side score.home score.away := hgraded _ hmem hside
    exact absurd hresult.symm (outcome_resolved o.side score.home score.away)
  · intro h
    refine ⟨_, rfl, ?_⟩
    intro so hso hside
    simp only [settledOf, settleOrders, List.map_map, List.mem_map, Function.comp_apply] at hso
    obtain ⟨o, ho, rfl⟩ := hso
    exact absurd hside (h o ho)

/-- An order of a book that was not published is in no frame. -/
theorem lost_order {v : Server} (h : Booked v) (hne : orders v ≠ []) : ∃ n < v.orderSeq, (carried v).count (idOf n) = 0 := by
  obtain ⟨o, os, ho⟩ := List.exists_cons_of_ne_nil hne
  have hmem : o.orderID ∈ v.book.keys := by
    rw [← orders_ids h, ho]
    exact List.mem_cons_self
  obtain ⟨n, hn, he⟩ := h.issued _ (List.mem_append_left _ hmem)
  refine ⟨n, hn, ?_⟩
  rw [← he, List.count_eq_zero]
  exact fun hc => (List.nodup_append.mp h.once).2.2 _ hmem _ hc rfl

theorem unready_contract {v : Server} (h : Booked v) (hne : orders v ≠ []) (boot now : JsDate) (score : Live.Score) :
    ¬ Contract (publishSettlement v (cycleAt boot now) score false) := by
  intro hc
  obtain ⟨hkeys, hseq, hcarried⟩ := fulltime_spec h hne boot now score false
  obtain ⟨n, hn, hzero⟩ := lost_order h hne
  have hone := hc.carried n (by rw [hseq]; exact hn) (by rw [hkeys]; exact List.not_mem_nil)
  rw [hcarried] at hone
  simp [hzero] at hone

/-- Published, the book is carried; what is left is the grading. -/
theorem ready_contract {v : Server} (h : Booked v) (hc : Contract v) (hne : orders v ≠ []) (boot now : JsDate)
    (score : Live.Score) :
    Contract (publishSettlement v (cycleAt boot now) score true) ↔ ∀ o ∈ orders v, ¬ is1X2 o.side := by
  obtain ⟨-, hseq, hcarried⟩ := fulltime_spec h hne boot now score true
  have hpub : (publishSettlement v (cycleAt boot now) score true).published =
      v.published ++ [⟨settlementWire (cycleAt boot now) score (orders v), score⟩] := by
    simp [publishSettlement, hne]
  rw [← graded_iff v boot now score]
  constructor
  · intro hc'
    apply hc'.graded
    rw [hpub]
    exact List.mem_append_right _ List.mem_cons_self
  · intro hnew
    have hgraded : ∀ p ∈ (publishSettlement v (cycleAt boot now) score true).published, GradedByScore p := by
      intro p hp
      rw [hpub] at hp
      rcases List.mem_append.mp hp with hp | hp
      · exact hc.graded p hp
      · rw [List.mem_singleton.mp hp]
        exact hnew
    refine ⟨?_, hgraded, session_eq hgraded⟩
    intro n hn _
    rw [hcarried, if_pos rfl]
    by_cases hbook : idOf n ∈ v.book.keys
    · have hmem : idOf n ∈ carried v ++ v.book.keys := List.mem_append_right _ hbook
      exact List.count_eq_one_of_mem (List.nodup_append_comm.mp h.once) hmem
    · rw [List.count_append, List.count_eq_zero.mpr hbook, Nat.add_zero]
      exact hc.carried n (by rw [← hseq]; exact hn) hbook

theorem fulltime_contract (boot : JsDate) {v : Server} (h : Booked v) (hc : Contract v) (score : Live.Score) (now : JsDate)
    (ready : Bool) :
    Contract (publishSettlement v (cycleAt boot now) score ready) ↔ Harmless v (.fulltime score now ready) := by
  by_cases hne : orders v = []
  · have hsame : publishSettlement v (cycleAt boot now) score ready = v := by simp [publishSettlement, hne]
    rw [hsame]
    exact iff_of_true hc (Or.inl hne)
  · simp only [Harmless, hne, false_or]
    cases ready with
    | false => exact iff_of_false (unready_contract h hne boot now score) (fun hr => absurd hr.1 (by decide))
    | true => rw [ready_contract h hc hne boot now score, and_iff_right rfl]

theorem step_contract (boot : JsDate) {v : Server} (h : Booked v) (hc : Contract v) (e : Event) :
    Contract (Vendor.step boot v e) ↔ Harmless v e := by
  cases e with
  | fill market side odds stake => exact iff_of_true (fill_contract h hc market side odds stake) trivial
  | fulltime score now ready => exact fulltime_contract boot h hc score now ready

theorem start_booked : Booked Vendor.start := ⟨nofun, nofun, List.nodup_nil⟩

theorem start_contract : Contract Vendor.start := ⟨fun _ hn => absurd hn (Nat.not_lt_zero _), nofun, rfl⟩

/-- The contract holds throughout a run exactly if every FULLTIME was harmless. -/
theorem contract_iff (boot : JsDate) (es : List Event) :
    (∀ pre, pre <+: es → Contract (Vendor.run boot Vendor.start pre)) ↔
      Meets (Vendor.step boot) Harmless Vendor.start es :=
  always_iff (Vendor.step boot) Harmless Booked Contract (fun _ e h => step_booked boot h e)
    (fun _ e h hc => step_contract boot h hc e) es start_booked start_contract

/-! ## As built -/

def boot0 : JsDate := ⟨0, by decide⟩

def oneHomeBet (ready : Bool) : List Event := [.fill "2H_1X2" "home" 3 10, .fulltime ⟨2, 1⟩ boot0 ready]

theorem a_home_bet_goes_ungraded :
    ¬ Contract (Vendor.run boot0 Vendor.start (oneHomeBet true)) ∧
    ¬ Contract (Vendor.run boot0 Vendor.start (oneHomeBet false)) := by
  have hbooked := step_booked boot0 start_booked (.fill "2H_1X2" "home" 3 10)
  have hbefore := (step_contract boot0 start_booked start_contract (.fill "2H_1X2" "home" 3 10)).mpr trivial
  have hbet : ∀ ready, ¬ Contract (Vendor.run boot0 Vendor.start (oneHomeBet ready)) := by
    intro ready hc
    rcases (step_contract boot0 hbooked hbefore (.fulltime ⟨2, 1⟩ boot0 ready)).mp hc with h | ⟨-, h⟩
    · cases h
    · exact h ⟨idOf 0, "2H_1X2", "home", 3, 10⟩ List.mem_cons_self (Or.inl rfl)
  exact ⟨hbet true, hbet false⟩

end CasuyaLive.System
