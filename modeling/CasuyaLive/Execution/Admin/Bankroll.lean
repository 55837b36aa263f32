/-
  CasuyaLive.Execution.Admin.Bankroll — the PnL hash and the settlement ledger over whole
  histories of settlement batches and admin requests, one at a time (execution-engine-go,
  internal/broker/interfaces.go: `persistSession`, `recordSettlements`; internal/api/
  server.go: `adminResetAnalytics`, `adminPruneUnresolved`, `adminRegradeDraws`).

  Every Redis command succeeds. An XADD with an approximate MAXLEN trims whole nodes of the
  stream, oldest entries first: it never goes below the limit and stays within one node of
  it. Each operation is what the turns of its task do (`settle_alone`, `request_alone`).

  The hash is cumulative, the ledger is bounded and can be reset. `prune_keeps_iff`: in every
  state of a history a prune would keep the bankroll iff no batch so far has trimmed the
  ledger and no reset has kept a ledger with entries. Past the trim limit a prune forgets
  what was trimmed; after such a reset it brings back what was reset
  (`a_prune_undoes_a_reset`).
-/

import Mathlib.Algebra.Order.Round
import Mathlib.Data.Rat.Floor
import Mathlib.Tactic.Linarith
import Mathlib.Tactic.Push
import CasuyaLive.Execution.Admin.Recompute

namespace CasuyaLive.Execution.Admin

open CasuyaLive.Lib CasuyaLive.Execution.Paper

/-- The most entries that one node of a stream holds. -/
def nodeEntries : Nat := 100

/-- One XADD whose trimming leaves less than a node above the limit. -/
def append (trim : Nat → Nat) (s : Sys) (e : Entry) : Sys :=
  xadd s (max (trim s.nextID) (s.ledger.length + 1 - (maxLen + nodeEntries))) e

def appendAll (trim : Nat → Nat) (s : Sys) (es : List Entry) : Sys := es.foldl (append trim) s

/-- The graded orders of one match, as both the run loop and the sweep make them. -/
structure Graded where
  matchID : String
  home : Float64
  away : Float64
  orders : List SettlementOrder
  source : String
  verified : Bool

def Graded.batch (g : Graded) : Batch :=
  ⟨g.matchID, g.home, g.away, settleOrders g.orders g.home g.away g.source g.verified, g.orders.map (·.orderID)⟩

inductive Op where
  /-- `trim`: how many entries the XADD of an id lets go. -/
  | settle (g : Graded) (now : Int) (trim : Nat → Nat)
  | reset (keepLedger : Bool)
  | request (r : Request) (trim : Nat → Nat)

def settleAll (s : Sys) (b : Batch) (now : Int) (trim : Nat → Nat) : Sys :=
  appendAll trim { s with hash := s.hash + b.totals } (b.entries now)

/-- The entries a request reads and deletes. -/
def hits (s : Sys) (r : Request) : List (Nat × Entry) := (s.ledger.take rangeCount).filter fun x => picked r x.2

/-- The ledger before the second XRANGE of a request. -/
def swept (s : Sys) (r : Request) (trim : Nat → Nat) : Sys :=
  appendAll trim { s with ledger := s.ledger.filter fun x => !((hits s r).map (·.1)).contains x.1 }
    (again r ((hits s r).map (·.2)))

def requestAll (s : Sys) (r : Request) (trim : Nat → Nat) : Sys :=
  let t := swept s r trim
  { t with hash := recomputed ((t.ledger.take rangeCount).map (·.2)) }

def resetAnalytics (s : Sys) (keepLedger : Bool) : Sys :=
  { s with hash := 0, ledger := if keepLedger then s.ledger else [] }

def operate (s : Sys) : Op → Sys
  | .settle g now trim => settleAll s g.batch now trim
  | .reset keepLedger => resetAnalytics s keepLedger
  | .request r trim => requestAll s r trim

/-- A fresh Redis. -/
def fresh : Sys := ⟨[], 0, 0, []⟩

def history (ops : List Op) : Sys := ops.foldl operate fresh

def prune (s : Sys) : Sys := requestAll s .pruneUnresolved fun _ => 0

/-- A prune leaves net, won and lost as they are, up to a cent of the net, and takes the
    unresolved entries it deletes off the voids. -/
structure PruneKeeps (s : Sys) : Prop where
  net : |(prune s).hash.net - s.hash.net| ≤ 1 / 100
  won : (prune s).hash.won = s.hash.won
  lost : (prune s).hash.lost = s.hash.lost
  voids : (prune s).hash.void = s.hash.void - (hits s .pruneUnresolved).length

/-- A batch trims nothing, and a reset keeps no entries. -/
def Synced (s : Sys) : Op → Prop
  | .settle g now trim => (settleAll s g.batch now trim).ledger.length = s.ledger.length + g.orders.length
  | .reset keepLedger => keepLedger = true → s.ledger = []
  | .request _ _ => True

instance (s : Sys) (op : Op) : Decidable (Synced s op) := by
  cases op <;> unfold Synced <;> infer_instance

/-! ## The same operations, turn by turn -/

theorem appendAll_tasks (trim : Nat → Nat) (ts : List Task) (es : List Entry) :
    ∀ (s : Sys), appendAll trim { s with tasks := ts } es = { appendAll trim s es with tasks := ts } := by
  induction es with
  | nil => intro s; rfl
  | cons e es ih => intro s; exact ih (append trim s e)

/-- The turn that appends one entry. -/
def appendTurn (trim : Nat → Nat) (s : Sys) : Turn := ⟨0, max (trim s.nextID) (s.ledger.length + 1 - (maxLen + nodeEntries))⟩

theorem adds_alone (trim : Nat → Nat) (es : List Entry) : ∀ (s : Sys), s.tasks = [.adds es] →
    ∃ as, run s as = { appendAll trim s es with tasks := [.adds []] } := by
  induction es with
  | nil => intro s h; exact ⟨[], by rw [run, List.foldl_nil, ← h]; rfl⟩
  | cons e es ih =>
    intro s h
    have hstep : step s (appendTurn trim s) = { append trim s e with tasks := [.adds es] } := by
      simp [step, stepTask, appendTurn, setTask, append, xadd, h]
    obtain ⟨as, has⟩ := ih { append trim s e with tasks := [.adds es] } rfl
    refine ⟨appendTurn trim s :: as, ?_⟩
    rw [run, List.foldl_cons, ← run, hstep, has, appendAll_tasks]
    rfl

/-- A batch with nothing else under way. -/
theorem settle_alone (s : Sys) (b : Batch) (now : Int) (trim : Nat → Nat) (h : s.tasks = [.persist b now]) :
    ∃ as, run s as = { settleAll s b now trim with tasks := [.adds []] } := by
  have hstep : step s ⟨0, 0⟩ = { s with hash := s.hash + b.totals, tasks := [.adds (b.entries now)] } := by
    simp [step, stepTask, setTask, h]
  obtain ⟨as, has⟩ := adds_alone trim (b.entries now) { s with hash := s.hash + b.totals, tasks := [.adds (b.entries now)] } rfl
  refine ⟨⟨0, 0⟩ :: as, ?_⟩
  rw [run, List.foldl_cons, ← run, hstep, has,
    appendAll_tasks trim [.adds (b.entries now)] (b.entries now) { s with hash := s.hash + b.totals }]
  rfl

theorem readds_alone (trim : Nat → Nat) (es : List Entry) : ∀ (e : Entry) (s : Sys), s.tasks = [.readd (e :: es)] →
    ∃ as, run s as = { appendAll trim s (e :: es) with tasks := [.reread] } := by
  induction es with
  | nil =>
    intro e s h
    refine ⟨[appendTurn trim s], ?_⟩
    simp [run, step, stepTask, appendTurn, setTask, appendAll, append, xadd, h]
  | cons e' es ih =>
    intro e s h
    have hstep : step s (appendTurn trim s) = { append trim s e with tasks := [.readd (e' :: es)] } := by
      simp [step, stepTask, appendTurn, setTask, append, xadd, h]
    obtain ⟨as, has⟩ := ih e' { append trim s e with tasks := [.readd (e' :: es)] } rfl
    refine ⟨appendTurn trim s :: as, ?_⟩
    rw [run, List.foldl_cons, ← run, hstep, has, appendAll_tasks]
    rfl

theorem recompute_alone (s : Sys) (h : s.tasks = [.reread]) :
    run s [⟨0, 0⟩, ⟨0, 0⟩] = { s with hash := recomputed ((s.ledger.take rangeCount).map (·.2)), tasks := [.done] } := by
  simp [run, step, stepTask, setTask, h]

theorem swept_alone (s : Sys) (r : Request) (trim : Nat → Nat) (h : s.tasks = [.read r]) :
    ∃ as, run s as = { swept s r trim with tasks := [.reread] } := by
  cases hh : hits s r with
  | nil =>
    refine ⟨[⟨0, 0⟩], ?_⟩
    have hnone : (s.ledger.take rangeCount).filter (fun x => picked r x.2) = [] := hh
    have hagain : again r [] = [] := by cases r <;> rfl
    simp [run, step, stepTask, setTask, h, hnone, swept, hh, appendAll, hagain]
  | cons x rest =>
    have hread : step s ⟨0, 0⟩ = { s with tasks := [.del ((hits s r).map (·.1)) (again r ((hits s r).map (·.2)))] } := by
      have hsome : (s.ledger.take rangeCount).filter (fun x => picked r x.2) = x :: rest := hh
      simp [step, stepTask, setTask, h, hsome, hh]
    have hdel : step { s with tasks := [.del ((hits s r).map (·.1)) (again r ((hits s r).map (·.2)))] } ⟨0, 0⟩ =
        { s with ledger := s.ledger.filter fun x => !((hits s r).map (·.1)).contains x.1,
                 tasks := [if (again r ((hits s r).map (·.2))).isEmpty then .reread else .readd (again r ((hits s r).map (·.2)))] } := rfl
    cases hagain : again r ((hits s r).map (·.2)) with
    | nil =>
      refine ⟨[⟨0, 0⟩, ⟨0, 0⟩], ?_⟩
      rw [run, List.foldl_cons, List.foldl_cons, List.foldl_nil, hread, hdel, swept, hagain]
      rfl
    | cons e es =>
      rw [hagain] at hread hdel
      obtain ⟨as, has⟩ := readds_alone trim es e
        { s with ledger := s.ledger.filter fun x => !((hits s r).map (·.1)).contains x.1, tasks := [.readd (e :: es)] } rfl
      refine ⟨⟨0, 0⟩ :: ⟨0, 0⟩ :: as, ?_⟩
      rw [run, List.foldl_cons, List.foldl_cons, ← run, hread, hdel, swept, hagain]
      simp only [List.isEmpty_cons, Bool.false_eq_true, if_false]
      rw [has, appendAll_tasks trim [.readd (e :: es)] (e :: es)
        { s with ledger := s.ledger.filter fun x => !((hits s r).map (·.1)).contains x.1 }]

/-- A request with nothing else under way. -/
theorem request_alone (s : Sys) (r : Request) (trim : Nat → Nat) (h : s.tasks = [.read r]) :
    ∃ as, run s as = { requestAll s r trim with tasks := [.done] } := by
  obtain ⟨as, has⟩ := swept_alone s r trim h
  refine ⟨as ++ [⟨0, 0⟩, ⟨0, 0⟩], ?_⟩
  have hsplit : run s (as ++ [⟨0, 0⟩, ⟨0, 0⟩]) = run (run s as) [⟨0, 0⟩, ⟨0, 0⟩] := List.foldl_append
  rw [hsplit, has, recompute_alone _ rfl]
  rfl

/-! ## Totals of entries -/

/-- How many orders the totals count. -/
def count (t : Totals) : Int := t.won + t.lost + t.void

theorem count_entries (es : List Entry) : count (entriesTotals es) = es.length := by
  unfold entriesTotals
  rw [settlementTotals_eq, List.map_map]
  induction es with
  | nil => rfl
  | cons e es ih =>
    have hone : count (delta e.toSettledOrder) = 1 := by
      unfold delta
      cases e.result <;> rfl
    rw [List.map_cons, List.sum_cons, List.length_cons]
    simp only [count, Totals.add_won, Totals.add_lost, Totals.add_void, Function.comp_apply] at ih hone ⊢
    omega

theorem count_add (a b : Totals) : count (a + b) = count a + count b := by
  simp only [count, Totals.add_won, Totals.add_lost, Totals.add_void]
  omega

/-- The totals of the entries that pass and of those that do not. -/
theorem entriesTotals_filter (p : Entry → Bool) (es : List Entry) :
    entriesTotals es = entriesTotals (es.filter p) + entriesTotals (es.filter (!p ·)) := by
  rw [← entriesTotals_append]
  exact (settlementTotals_perm ((List.filter_append_perm p es).map _)).symm

/-- Unresolved entries move no money and count as voids. -/
theorem unresolved_totals (es : List Entry) (h : ∀ e ∈ es, e.result = .unresolved ∧ e.pnl = 0) :
    entriesTotals es = ⟨0, 0, 0, es.length⟩ := by
  induction es with
  | nil => rfl
  | cons e es ih =>
    obtain ⟨hr, hp⟩ := h e List.mem_cons_self
    have hd : entriesTotals [e] = ⟨0, 0, 0, 1⟩ := by
      simp [entriesTotals, settlementTotals, delta, hr, hp]
    rw [show e :: es = [e] ++ es from rfl, entriesTotals_append, hd, ih fun x hx => h x (List.mem_cons_of_mem _ hx)]
    ext <;> simp
    omega

/-- Rounding to the cent is off by half a cent at most. -/
theorem abs_cents_sub (q : ℚ) : |cents q - q| ≤ 1 / 200 := by
  have hround : ∀ x : ℚ, |(mathRound x : ℚ) - x| ≤ 1 / 2 := by
    intro x
    unfold mathRound
    split
    · have h1 := Int.floor_le (x + 1 / 2)
      have h2 := Int.lt_floor_add_one (x + 1 / 2)
      rw [abs_le]
      constructor <;> linarith
    · have h1 := Int.floor_le (-x + 1 / 2)
      have h2 := Int.lt_floor_add_one (-x + 1 / 2)
      rw [abs_le]
      push_cast
      constructor <;> linarith
  have h := hround (q * 100)
  rw [abs_le] at h ⊢
  unfold cents
  constructor <;> linarith [h.1, h.2]

/-! ## The ledger -/

/-- A ledger in the order of its ids, within a node of its limit, whose unresolved entries
    move no money. -/
structure Kept (s : Sys) : Prop where
  sorted : (s.ledger.map (·.1)).Pairwise (· < ·)
  issued : ∀ x ∈ s.ledger, x.1 < s.nextID
  short : s.ledger.length ≤ maxLen + nodeEntries
  unmoved : ∀ x ∈ s.ledger, x.2.result = .unresolved → x.2.pnl = 0

theorem append_ledger (trim : Nat → Nat) (s : Sys) (e : Entry) : ∃ d, d ≤ s.ledger.length + 1 ∧
    s.ledger.length + 1 - d ≤ maxLen + nodeEntries ∧ (append trim s e).ledger = (s.ledger ++ [(s.nextID, e)]).drop d := by
  refine ⟨_, ?_, ?_, rfl⟩ <;> simp only [List.length_append, List.length_singleton] <;> omega

theorem append_kept {s : Sys} (h : Kept s) (trim : Nat → Nat) {e : Entry} (he : e.result = .unresolved → e.pnl = 0) :
    Kept (append trim s e) := by
  obtain ⟨d, -, hshort, hl⟩ := append_ledger trim s e
  have hsub : ((append trim s e).ledger).Sublist (s.ledger ++ [(s.nextID, e)]) := by
    rw [hl]
    exact List.drop_sublist d _
  have hnext : (append trim s e).nextID = s.nextID + 1 := rfl
  refine ⟨?_, fun x hx => ?_, ?_, fun x hx => ?_⟩
  · refine (List.pairwise_append.mpr ⟨h.sorted, List.pairwise_singleton _ _, fun a ha b hb => ?_⟩).sublist
      (by rw [← List.map_singleton, ← List.map_append]; exact hsub.map _)
    obtain ⟨x, hx, rfl⟩ := List.mem_map.mp ha
    rw [List.mem_singleton.mp hb]
    exact h.issued x hx
  · rw [hnext]
    rcases List.mem_append.mp (hsub.subset hx) with hx | hx
    · exact Nat.lt_succ_of_lt (h.issued x hx)
    · rw [List.mem_singleton.mp hx]
      exact Nat.lt_succ_self _
  · rw [hl, List.length_drop, List.length_append, List.length_singleton]
    exact hshort
  · rcases List.mem_append.mp (hsub.subset hx) with hx | hx
    · exact h.unmoved x hx
    · rw [List.mem_singleton.mp hx]
      exact he

theorem appendAll_kept (trim : Nat → Nat) (es : List Entry) (he : ∀ e ∈ es, e.result = .unresolved → e.pnl = 0) :
    ∀ {s : Sys}, Kept s → Kept (appendAll trim s es) := by
  induction es with
  | nil => intro s h; exact h
  | cons e es ih =>
    intro s h
    exact ih (fun x hx => he x (List.mem_cons_of_mem _ hx)) (append_kept h trim (he e List.mem_cons_self))

theorem appendAll_hash (trim : Nat → Nat) (es : List Entry) : ∀ (s : Sys), (appendAll trim s es).hash = s.hash := by
  induction es with
  | nil => intro s; rfl
  | cons e es ih => intro s; exact ih (append trim s e)

/-- Appending entries lets some of the oldest go. -/
theorem appendAll_entries (trim : Nat → Nat) (es : List Entry) :
    ∀ (s : Sys), ∃ d, entries (appendAll trim s es) = (entries s ++ es).drop d := by
  induction es with
  | nil => intro s; exact ⟨0, by simp [appendAll]⟩
  | cons e es ih =>
    intro s
    obtain ⟨d, hd, -, hl⟩ := append_ledger trim s e
    obtain ⟨d', h'⟩ := ih (append trim s e)
    refine ⟨d + d', ?_⟩
    have hentries : entries (append trim s e) = (entries s ++ [e]).drop d := by
      simp only [entries, hl, List.map_drop, List.map_append, List.map_singleton]
    have hle : d ≤ (entries s ++ [e]).length := by simpa [entries] using hd
    rw [show appendAll trim s (e :: es) = appendAll trim (append trim s e) es from rfl, h', hentries,
      ← List.drop_append_of_le_length hle, List.drop_drop, List.append_assoc]
    rfl

/-- What is in no way trimmed is all there. -/
theorem appendAll_untrimmed {trim : Nat → Nat} {s : Sys} {es : List Entry}
    (h : (appendAll trim s es).ledger.length = s.ledger.length + es.length) : entries (appendAll trim s es) = entries s ++ es := by
  obtain ⟨d, hd⟩ := appendAll_entries trim es s
  have hlen := congrArg List.length hd
  simp only [entries, List.length_map, List.length_drop, List.length_append] at hlen
  rw [hd]
  rcases Nat.eq_zero_or_pos d with h0 | hpos
  · rw [h0, List.drop_zero]
  · have hnil : entries s ++ es = [] := by
      rw [← List.length_eq_zero_iff]
      simp only [entries, List.length_append, List.length_map]
      omega
    rw [hnil, List.drop_nil]

theorem settled_unmoved (g : Graded) (now : Int) : ∀ e ∈ g.batch.entries now, e.result = .unresolved → e.pnl = 0 := by
  intro e he hr
  obtain ⟨so, hso, rfl⟩ := List.mem_map.mp he
  obtain ⟨o, -, rfl⟩ := List.mem_map.mp hso
  have hres : (settleOrder g.home g.away g.source g.verified o).result = .unresolved := hr
  show pnlFor (settleOrder g.home g.away g.source g.verified o).result o.stake o.odds = 0
  rw [hres]
  exact unresolved_pnl o.stake o.odds

theorem again_unmoved (r : Request) (es : List Entry) : ∀ e ∈ again r es, e.result = .unresolved → e.pnl = 0 := by
  intro e he hr
  cases r with
  | pruneUnresolved => cases he
  | regradeDraws =>
    obtain ⟨x, -, rfl⟩ := List.mem_map.mp he
    cases hr

theorem filter_kept {s : Sys} (h : Kept s) (p : Nat × Entry → Bool) : Kept { s with ledger := s.ledger.filter p } := by
  have hsub : (s.ledger.filter p).Sublist s.ledger := List.filter_sublist
  exact ⟨h.sorted.sublist (hsub.map _), fun x hx => h.issued x (hsub.subset hx), hsub.length_le.trans h.short,
    fun x hx => h.unmoved x (hsub.subset hx)⟩

theorem swept_kept {s : Sys} (h : Kept s) (r : Request) (trim : Nat → Nat) : Kept (swept s r trim) :=
  appendAll_kept trim _ (again_unmoved r _) (filter_kept h _)

theorem Kept.hash {s : Sys} (h : Kept s) (t : Totals) : Kept { s with hash := t } := ⟨h.sorted, h.issued, h.short, h.unmoved⟩

theorem kept_nil {s : Sys} (h : s.ledger = []) : Kept s := by
  constructor <;> simp [h]

theorem operate_kept {s : Sys} (h : Kept s) (op : Op) : Kept (operate s op) := by
  cases op with
  | settle g now trim => exact appendAll_kept trim _ (settled_unmoved g now) (h.hash _)
  | reset keepLedger =>
    cases keepLedger with
    | true => exact h.hash 0
    | false => exact kept_nil rfl
  | request r trim => exact (swept_kept h r trim).hash _

/-! ## What a request deletes -/

theorem hits_sub {s : Sys} {r : Request} {y : Nat × Entry} (h : y ∈ hits s r) :
    y ∈ s.ledger.take rangeCount ∧ picked r y.2 = true := List.mem_filter.mp h

/-- The deleted entries are the ones that were read and picked. -/
theorem filter_hits {s : Sys} (hids : (s.ledger.map (·.1)).Nodup) (r : Request) :
    s.ledger.filter (fun x => ((hits s r).map (·.1)).contains x.1) = hits s r := by
  have hsame : ∀ x ∈ s.ledger, ((hits s r).map (·.1)).contains x.1 = true → x ∈ hits s r := by
    intro x hx h
    obtain ⟨y, hy, hid⟩ := List.mem_map.mp (List.contains_iff_mem.mp h)
    rwa [← List.inj_on_of_nodup_map hids (List.mem_of_mem_take (hits_sub hy).1) hx hid]
  have hread : (s.ledger.take rangeCount).filter (fun x => ((hits s r).map (·.1)).contains x.1) = hits s r := by
    apply List.filter_congr
    intro x hx
    rw [Bool.eq_iff_iff]
    constructor
    · intro h
      exact (hits_sub (hsame x (List.mem_of_mem_take hx) h)).2
    · intro h
      exact List.contains_iff_mem.mpr (List.mem_map_of_mem (List.mem_filter.mpr ⟨hx, h⟩))
  have hrest : (s.ledger.drop rangeCount).filter (fun x => ((hits s r).map (·.1)).contains x.1) = [] := by
    rw [List.filter_eq_nil_iff]
    intro x hx h
    have hboth := (hits_sub (hsame x (List.mem_of_mem_drop hx) h)).1
    exact List.disjoint_take_drop hids.of_map (Nat.le_refl _) hboth hx
  calc s.ledger.filter (fun x => ((hits s r).map (·.1)).contains x.1)
      = (s.ledger.take rangeCount ++ s.ledger.drop rangeCount).filter (fun x => ((hits s r).map (·.1)).contains x.1) := by
        rw [List.take_append_drop]
    _ = hits s r ++ [] := by rw [List.filter_append, hread, hrest]
    _ = hits s r := List.append_nil _

/-- An entry is deleted exactly if it was picked, in a ledger that one XRANGE reads whole. -/
theorem hit_iff {s : Sys} (hids : (s.ledger.map (·.1)).Nodup) (htake : s.ledger.take rangeCount = s.ledger) (r : Request)
    {x : Nat × Entry} (hx : x ∈ s.ledger) : ((hits s r).map (·.1)).contains x.1 = picked r x.2 := by
  have hsame : x ∈ s.ledger.filter (fun x => ((hits s r).map (·.1)).contains x.1) ↔ x ∈ s.ledger.filter fun x => picked r x.2 := by
    rw [filter_hits hids, hits, htake]
  rw [List.mem_filter, List.mem_filter] at hsame
  rw [Bool.eq_iff_iff]
  exact ⟨fun h => (hsame.mp ⟨hx, h⟩).2, fun h => (hsame.mpr ⟨hx, h⟩).2⟩

/-! ## A prune -/

theorem take_all {s : Sys} (h : Kept s) : s.ledger.take rangeCount = s.ledger := by
  have hshort := h.short
  apply List.take_of_length_le
  unfold maxLen nodeEntries at hshort
  unfold rangeCount
  omega

/-- A prune deletes exactly the unresolved entries. -/
theorem prune_entries {s : Sys} (h : Kept s) :
    entries (prune s) = (entries s).filter fun e => !(e.result == .unresolved) := by
  have hids : (s.ledger.map (·.1)).Nodup := h.sorted.imp fun hlt => Nat.ne_of_lt hlt
  show ((s.ledger.filter _).map (·.2)) = _
  rw [entries, List.filter_map]
  congr 1
  exact List.filter_congr fun x hx => by rw [hit_iff hids (take_all h) .pruneUnresolved hx]; rfl

theorem prune_hash {s : Sys} (h : Kept s) : (prune s).hash = recomputed (entries (prune s)) := by
  have hk := swept_kept h .pruneUnresolved fun _ => 0
  show recomputed (((swept s .pruneUnresolved fun _ => 0).ledger.take rangeCount).map (·.2)) = _
  rw [take_all hk]
  rfl

/-- The deleted entries are that many voids and no money. -/
theorem entries_prune {s : Sys} (h : Kept s) :
    entriesTotals (entries s) = ⟨0, 0, 0, (hits s .pruneUnresolved).length⟩ + entriesTotals (entries (prune s)) := by
  have hhits : ((entries s).filter fun e => e.result == .unresolved).length = (hits s .pruneUnresolved).length := by
    rw [entries, List.filter_map, List.length_map, hits, take_all h]
    rfl
  have hdeleted := unresolved_totals ((entries s).filter fun e => e.result == .unresolved) fun e he => by
    obtain ⟨hm, hr⟩ := List.mem_filter.mp he
    obtain ⟨x, hx, rfl⟩ := List.mem_map.mp hm
    have hr' : x.2.result = .unresolved := by simpa using hr
    exact ⟨hr', h.unmoved x hx hr'⟩
  rw [entriesTotals_filter (fun e => e.result == .unresolved) (entries s), hdeleted, hhits, prune_entries h]

/-! ## The hash and the ledger -/

/-- The hash counts what the ledger lists. -/
structure Counts (s : Sys) : Prop where
  won : s.hash.won = (entriesTotals (entries s)).won
  lost : s.hash.lost = (entriesTotals (entries s)).lost
  void : s.hash.void = (entriesTotals (entries s)).void

/-- The net too, but for the rounding of the last recomputation. -/
structure Faithful (s : Sys) : Prop extends Counts s where
  net : |s.hash.net - (entriesTotals (entries s)).net| ≤ 1 / 200

theorem keeps_of_faithful {s : Sys} (h : Kept s) (hf : Faithful s) : PruneKeeps s := by
  have hsplit := entries_prune h
  have hhash := prune_hash h
  have hnet : (entriesTotals (entries s)).net = (entriesTotals (entries (prune s))).net := by
    rw [hsplit, Totals.add_net, zero_add]
  refine ⟨?_, ?_, ?_, ?_⟩
  · have h1 := hf.net
    have h2 := abs_cents_sub (entriesTotals (entries (prune s))).net
    rw [hnet, abs_sub_comm] at h1
    rw [hhash]
    calc |cents (entriesTotals (entries (prune s))).net - s.hash.net|
        ≤ |cents (entriesTotals (entries (prune s))).net - (entriesTotals (entries (prune s))).net|
          + |(entriesTotals (entries (prune s))).net - s.hash.net| := abs_sub_le _ _ _
      _ ≤ 1 / 200 + 1 / 200 := add_le_add h2 h1
      _ = 1 / 100 := by norm_num
  · rw [hhash, hf.won, hsplit, Totals.add_won, zero_add]
    rfl
  · rw [hhash, hf.lost, hsplit, Totals.add_lost, zero_add]
    rfl
  · rw [hhash, hf.void, hsplit, Totals.add_void, add_sub_cancel_left]
    rfl

theorem counts_of_keeps {s : Sys} (h : Kept s) (hk : PruneKeeps s) : Counts s := by
  have hsplit := entries_prune h
  have hhash := prune_hash h
  refine ⟨?_, ?_, ?_⟩
  · rw [← hk.won, hhash, hsplit, Totals.add_won, zero_add]
    rfl
  · rw [← hk.lost, hhash, hsplit, Totals.add_lost, zero_add]
    rfl
  · have hv := hk.voids
    rw [hhash] at hv
    rw [hsplit, Totals.add_void]
    have hsame : (recomputed (entries (prune s))).void = (entriesTotals (entries (prune s))).void := rfl
    rw [hsame] at hv
    show s.hash.void = (hits s .pruneUnresolved).length + _
    omega

theorem recomputed_faithful {t : Sys} (h : Kept t) :
    Faithful { t with hash := recomputed ((t.ledger.take rangeCount).map (·.2)) } := by
  rw [take_all h]
  exact ⟨⟨rfl, rfl, rfl⟩, abs_cents_sub _⟩

theorem settle_faithful {s : Sys} (hf : Faithful s) {g : Graded} {now : Int} {trim : Nat → Nat}
    (hs : Synced s (.settle g now trim)) : Faithful (settleAll s g.batch now trim) := by
  have hlen : (g.batch.entries now).length = g.orders.length := by simp [Batch.entries, Graded.batch, settleOrders]
  have hentries : entries (settleAll s g.batch now trim) = entries s ++ g.batch.entries now :=
    appendAll_untrimmed (by rw [hlen]; exact hs)
  have hhash : (settleAll s g.batch now trim).hash = s.hash + g.batch.totals := appendAll_hash trim _ _
  have htotals : entriesTotals (entries (settleAll s g.batch now trim)) = entriesTotals (entries s) + g.batch.totals := by
    rw [hentries, entriesTotals_append, batch_totals]
  refine ⟨⟨?_, ?_, ?_⟩, ?_⟩
  · rw [hhash, htotals, Totals.add_won, Totals.add_won, hf.won]
  · rw [hhash, htotals, Totals.add_lost, Totals.add_lost, hf.lost]
  · rw [hhash, htotals, Totals.add_void, Totals.add_void, hf.void]
  · rw [hhash, htotals, Totals.add_net, Totals.add_net, add_sub_add_right_eq_sub]
    exact hf.net

theorem operate_faithful {s : Sys} (h : Kept s) (hf : Faithful s) {op : Op} (hs : Synced s op) : Faithful (operate s op) := by
  cases op with
  | settle g now trim => exact settle_faithful hf hs
  | reset keepLedger =>
    have hnil : entries (resetAnalytics s keepLedger) = [] := by
      cases keepLedger with
      | true => simp only [entries, resetAnalytics, if_true, hs rfl, List.map_nil]
      | false => rfl
    refine ⟨⟨?_, ?_, ?_⟩, ?_⟩ <;> simp only [operate, hnil] <;> simp [resetAnalytics, entriesTotals]
  | request r trim => exact recomputed_faithful (swept_kept h r trim)

theorem count_settle (s : Sys) (g : Graded) (now : Int) (trim : Nat → Nat) :
    count (settleAll s g.batch now trim).hash = count s.hash + g.orders.length := by
  rw [settleAll, appendAll_hash]
  show count (s.hash + g.batch.totals) = _
  rw [count_add, ← batch_totals g.batch now, count_entries]
  simp [Batch.entries, Graded.batch, settleOrders]

/-- When both states count, nothing was trimmed and nothing kept by a reset. -/
theorem synced_of_counts {s : Sys} (hc : Counts s) {op : Op} (hc' : Counts (operate s op)) : Synced s op := by
  have hcount : ∀ {t : Sys}, Counts t → count t.hash = t.ledger.length := by
    intro t ht
    have h := count_entries (entries t)
    simp only [count, ht.won, ht.lost, ht.void] at h ⊢
    rw [h, entries, List.length_map]
  have h1 := hcount hc
  have h2 := hcount hc'
  cases op with
  | settle g now trim =>
    have hbatch := count_settle s g now trim
    show (settleAll s g.batch now trim).ledger.length = _
    simp only [operate] at h2
    omega
  | reset keepLedger =>
    intro hkeep
    subst hkeep
    have h0 : (0 : Int) = s.ledger.length := h2
    exact List.length_eq_zero_iff.mp (by omega)
  | request r trim => trivial

/-! ## Histories -/

theorem fresh_kept : Kept fresh := kept_nil rfl

theorem fresh_faithful : Faithful fresh := ⟨⟨rfl, rfl, rfl⟩, by simp [fresh, entries, entriesTotals]⟩

theorem history_kept (ops : List Op) : Kept (history ops) := fold_inv Kept (fun _ op h => operate_kept h op) ops fresh_kept

/-- In every state of a history a prune would keep the bankroll iff no batch trimmed the
    ledger and no reset kept one with entries. -/
theorem prune_keeps_iff (ops : List Op) :
    (∀ pre, pre <+: ops → PruneKeeps (history pre)) ↔ Meets operate Synced fresh ops := by
  constructor
  · intro h
    rw [meets_iff]
    intro pre op post hsplit
    subst hsplit
    have hc := counts_of_keeps (history_kept pre) (h pre ⟨op :: post, rfl⟩)
    have hc' := counts_of_keeps (history_kept (pre ++ [op])) (h (pre ++ [op]) ⟨post, by simp⟩)
    have hlast : history (pre ++ [op]) = operate (history pre) op := by
      simp only [history, List.foldl_append, List.foldl_cons, List.foldl_nil]
    rw [hlast] at hc'
    exact synced_of_counts hc hc'
  · intro h pre hpre
    have hboth := run_always (fun s => Kept s ∧ Faithful s)
      (fun s op hs hc => ⟨operate_kept hs.1 op, operate_faithful hs.1 hs.2 hc⟩) ⟨fresh_kept, fresh_faithful⟩ h pre hpre
    exact keeps_of_faithful hboth.1 hboth.2

/-- One home bet of 10 at 2.0 that lost. -/
def oneLost : Graded := ⟨"m1", 0, 1, [⟨"paper_1", "FULLTIME_1X2", "home", 2, 10⟩], "feed_ft", true⟩

def oneBet : Op := .settle oneLost 0 fun _ => 0

theorem long_history_counts (n : Nat) : count (history (List.replicate n oneBet)).hash = n := by
  induction n with
  | zero => rfl
  | succ n ih =>
    have hlast : history (List.replicate (n + 1) oneBet) = operate (history (List.replicate n oneBet)) oneBet := by
      simp only [List.replicate_succ', history, List.foldl_append, List.foldl_cons, List.foldl_nil]
    have hone := count_settle (history (List.replicate n oneBet)) oneLost 0 fun _ => 0
    rw [hlast]
    show count (settleAll (history (List.replicate n oneBet)) oneLost.batch 0 fun _ => 0).hash = _
    rw [hone, ih]
    rfl

/-- The ledger holds the last thousand or so of 1101 bets, and the hash counts all of them. -/
theorem a_prune_forgets_what_was_trimmed :
    ¬ ∀ pre, pre <+: List.replicate 1101 oneBet → PruneKeeps (history pre) := by
  intro h
  have hkept := history_kept (List.replicate 1101 oneBet)
  have hc := counts_of_keeps hkept (h _ (List.prefix_refl _))
  have hhash := long_history_counts 1101
  have hledger := count_entries (entries (history (List.replicate 1101 oneBet)))
  have hshort := hkept.short
  simp only [count, hc.won, hc.lost, hc.void, entries, List.length_map, maxLen, nodeEntries] at hhash hledger hshort
  omega

/-- The counters are reset, the ledger is kept, and a prune counts it again. -/
theorem a_prune_undoes_a_reset : ¬ PruneKeeps (history [oneBet, .reset true]) :=
  fun h => absurd h.lost (by decide +kernel)

end CasuyaLive.Execution.Admin
