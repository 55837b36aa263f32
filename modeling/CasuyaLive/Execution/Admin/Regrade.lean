/-
  CasuyaLive.Execution.Admin.Regrade — `adminRegradeDraws` as one handler, whose Redis
  commands may fail (execution-engine-go, internal/api/server.go).

  The void home and away bets of level matches are deleted and appended again as lost; then
  the hash is recomputed. The commands go one by one and the XADDs in a pipeline that is no
  transaction: a command may fail before or after it took effect, the pipeline after any
  number of its XADDs. With no failure the handler is the request of `Recompute`
  (`regrade_never`).
  - `regrade_agrees_iff`: the entries it rewrites are the ones `settleOrders` makes today,
    and a second call changes nothing, iff their stakes are whole cents: the handler does
    not round (`a_fraction_of_a_cent_stays`).
  - `loses_nothing_iff`: an error leaves every settlement in the ledger once iff it is not
    one between the XDEL and the last XADD, and no XADD has trimmed the stream
    (`a_failed_pipeline_loses_a_settlement`).
-/

import CasuyaLive.Execution.Admin.Bankroll

namespace CasuyaLive.Execution.Admin

open CasuyaLive.Lib CasuyaLive.Execution.Paper

/-- The command that fails; `applied`: it took effect and its answer was lost. -/
inductive Failure where
  | never
  | read
  | del (applied : Bool)
  /-- Of the pipeline, this many XADDs took effect. -/
  | readd (applied : Nat)
  | reread
  | write (applied : Bool)
  deriving DecidableEq

/-- XDEL of what the first XRANGE picked. -/
def deleted (s : Sys) : Sys :=
  { s with ledger := s.ledger.filter fun x => !((hits s .regradeDraws).map (·.1)).contains x.1 }

/-- The pipeline of XADDs, up to the `n`-th. -/
def readded (trim : Nat → Nat) (s : Sys) (n : Nat) : Sys :=
  appendAll trim (deleted s) ((again .regradeDraws ((hits s .regradeDraws).map (·.2))).take n)

/-- The delete and the pipeline; whether the handler goes on. -/
def replaceDraws (f : Failure) (trim : Nat → Nat) (s : Sys) : Sys × Bool :=
  if (hits s .regradeDraws).isEmpty then (s, true)
  else
    match f with
    | .del applied => (if applied then deleted s else s, false)
    | .readd applied => (readded trim s applied, false)
    | _ => (readded trim s (hits s .regradeDraws).length, true)

def overwrite (s : Sys) : Sys := { s with hash := recomputed ((s.ledger.take rangeCount).map (·.2)) }

/-- What is left in Redis, and whether the answer is the JSON summary or an error. -/
def adminRegradeDraws (f : Failure) (trim : Nat → Nat) (s : Sys) : Sys × Bool :=
  if f = .read then (s, false)
  else
    let (t, ok) := replaceDraws f trim s
    if !ok then (t, false)
    else
      match f with
      | .reread => (t, false)
      | .write applied => (if applied then overwrite t else t, false)
      | _ => (overwrite t, true)

/-! ## Without a failure -/

theorem hits_length (s : Sys) : (again .regradeDraws ((hits s .regradeDraws).map (·.2))).length = (hits s .regradeDraws).length := by
  simp [again]

theorem readded_all (trim : Nat → Nat) (s : Sys) : readded trim s (hits s .regradeDraws).length = swept s .regradeDraws trim := by
  rw [readded, ← hits_length, List.take_length]
  rfl

theorem deleted_none {s : Sys} (h : hits s .regradeDraws = []) : deleted s = s := by
  simp [deleted, h]

theorem swept_none {s : Sys} (h : hits s .regradeDraws = []) (trim : Nat → Nat) : swept s .regradeDraws trim = s := by
  rw [← readded_all, readded, deleted_none h, h]
  rfl

/-- Unless the XDEL or the pipeline fails, all entries picked are replaced. -/
theorem replace_full {f : Failure} (hdel : ∀ applied, f ≠ .del applied) (hreadd : ∀ n, f ≠ .readd n) (trim : Nat → Nat) (s : Sys) :
    replaceDraws f trim s = (readded trim s (hits s .regradeDraws).length, true) := by
  unfold replaceDraws
  by_cases hnil : hits s .regradeDraws = []
  · rw [hnil, readded, deleted_none hnil, hnil]
    rfl
  · rw [if_neg (by simpa using hnil)]
    cases f with
    | del applied => exact absurd rfl (hdel applied)
    | readd n => exact absurd rfl (hreadd n)
    | _ => rfl

theorem replace_never (trim : Nat → Nat) (s : Sys) : replaceDraws .never trim s = (swept s .regradeDraws trim, true) := by
  rw [replace_full (by simp) (by simp), readded_all]

/-- The handler that nothing disturbs is the request with its turns. -/
theorem regrade_never (trim : Nat → Nat) (s : Sys) :
    adminRegradeDraws .never trim s = (requestAll s .regradeDraws trim, true) := by
  simp only [adminRegradeDraws, replace_never]
  rfl

/-! ## The entries it rewrites -/

theorem deleted_entries {s : Sys} (hids : (s.ledger.map (·.1)).Nodup) (htake : s.ledger.take rangeCount = s.ledger) :
    entries (deleted s) = (entries s).filter (!regradable ·) := by
  simp only [entries, deleted, List.filter_map]
  congr 1
  exact List.filter_congr fun x hx => by rw [hit_iff hids htake .regradeDraws hx]; rfl

theorem again_entries {s : Sys} (htake : s.ledger.take rangeCount = s.ledger) :
    again .regradeDraws ((hits s .regradeDraws).map (·.2)) = ((entries s).filter regradable).map regraded := by
  simp only [again, hits, htake, entries, List.filter_map]
  rfl

/-- How many entries an XADD of the next id lets go. -/
def lets (trim : Nat → Nat) (nextID len : Nat) : Nat :=
  min (max (trim nextID) (len + 1 - (maxLen + nodeEntries))) (len + 1 - maxLen)

theorem append_length (trim : Nat → Nat) (s : Sys) (e : Entry) :
    (append trim s e).ledger.length = s.ledger.length + 1 - lets trim s.nextID s.ledger.length := by
  simp [append, xadd, lets]

theorem appendAll_length_le (trim : Nat → Nat) (es : List Entry) (s : Sys) :
    (appendAll trim s es).ledger.length ≤ s.ledger.length + es.length := by
  induction es generalizing s with
  | nil => exact Nat.le_refl _
  | cons e es ih =>
    have h := ih (append trim s e)
    rw [append_length] at h
    show (appendAll trim (append trim s e) es).ledger.length ≤ _
    rw [List.length_cons]
    omega

/-- Everything is still there exactly if no XADD lets an entry go. -/
theorem appendAll_length_iff (trim : Nat → Nat) (es : List Entry) (s : Sys) :
    (appendAll trim s es).ledger.length = s.ledger.length + es.length ↔
      ∀ j < es.length, lets trim (s.nextID + j) (s.ledger.length + j) = 0 := by
  induction es generalizing s with
  | nil => simp [appendAll]
  | cons e es ih =>
    have hlen := append_length trim s e
    have hle := appendAll_length_le trim es (append trim s e)
    have hlets : lets trim s.nextID s.ledger.length ≤ s.ledger.length + 1 - maxLen := Nat.min_le_right _ _
    have hih := ih (append trim s e)
    show (appendAll trim (append trim s e) es).ledger.length = _ ↔ _
    rw [List.length_cons]
    by_cases h0 : lets trim s.nextID s.ledger.length = 0
    · have hnext : (append trim s e).nextID = s.nextID + 1 := rfl
      have hshift : ∀ j, lets trim (s.nextID + 1 + j) (s.ledger.length + 1 + j) =
          lets trim (s.nextID + (j + 1)) (s.ledger.length + (j + 1)) := by
        intro j
        congr 1 <;> omega
      rw [h0, Nat.sub_zero] at hlen
      rw [hlen, hnext] at hih
      constructor
      · intro h j hj
        cases j with
        | zero => exact h0
        | succ j =>
          rw [← hshift]
          exact hih.mp (by omega) j (by omega)
      · intro h
        have hrest := hih.mpr fun j hj => (hshift j).trans (h (j + 1) (by omega))
        omega
    · constructor
      · intro h
        omega
      · intro h
        exact absurd (h 0 (Nat.succ_pos _)) h0

/-- Replacing the draws of a ledger within its limit loses nothing. -/
theorem swept_entries {s : Sys} (hids : (s.ledger.map (·.1)).Nodup) (hlen : s.ledger.length ≤ maxLen) (trim : Nat → Nat) :
    entries (swept s .regradeDraws trim) =
      (entries s).filter (!regradable ·) ++ ((entries s).filter regradable).map regraded := by
  have htake : s.ledger.take rangeCount = s.ledger := List.take_of_length_le (by unfold maxLen at hlen; unfold rangeCount; omega)
  have hsplit : ((entries s).filter regradable).length + ((entries s).filter (!regradable ·)).length = s.ledger.length := by
    rw [← List.length_append, (List.filter_append_perm regradable (entries s)).length_eq, entries, List.length_map]
  have hdeleted : (deleted s).ledger.length = ((entries s).filter (!regradable ·)).length := by
    rw [← deleted_entries hids htake, entries, List.length_map]
  have hall : (appendAll trim (deleted s) (((entries s).filter regradable).map regraded)).ledger.length =
      (deleted s).ledger.length + (((entries s).filter regradable).map regraded).length := by
    rw [appendAll_length_iff]
    intro j hj
    rw [List.length_map] at hj
    unfold lets
    omega
  rw [← deleted_entries hids htake, ← appendAll_untrimmed hall, ← again_entries htake]
  rfl

/-- What `settleOrders` makes of the entry today, from a verified score. -/
def resettled (e : Entry) : Entry :=
  let so := settleOrder e.scoreHome e.scoreAway "regrade-draws" true e.toSettlementOrder
  { e with result := so.result, pnl := so.pnl, source := so.source }

theorem resettled_eq {e : Entry} (h : regradable e = true) : resettled e = { regraded e with pnl := cents (-e.stake) } := by
  simp only [regradable, Bool.and_eq_true, Bool.or_eq_true, beq_iff_eq] at h
  obtain ⟨⟨-, hside⟩, hlevel⟩ := h
  have hlevel' : e.scoreAway.eq e.scoreHome = true := Float64.eq_symm hlevel
  have hlost : outcomeFor e.side e.scoreHome e.scoreAway = .lost := by
    rcases hside with hs | hs <;> simp [outcomeFor, hs, Float64.not_lt_of_eq hlevel, Float64.not_lt_of_eq hlevel']
  simp [resettled, regraded, settleOrder, hlost, pnlFor]

def WholeCents (q : ℚ) : Prop := ∃ n : Int, q = n / 100

theorem cents_eq_iff (q : ℚ) : cents q = q ↔ WholeCents q := by
  constructor
  · intro h
    exact ⟨mathRound (q * 100), h.symm⟩
  · intro h
    obtain ⟨n, rfl⟩ := h
    have hround : mathRound (n / 100 * 100) = n := by
      rw [div_mul_cancel₀ _ (by norm_num)]
      unfold mathRound
      split
      · rw [Int.floor_eq_iff]
        constructor <;> linarith
      · rw [neg_eq_iff_eq_neg, Int.floor_eq_iff]
        push_cast
        constructor <;> linarith
    rw [cents, hround]

theorem wholeCents_neg (q : ℚ) : WholeCents (-q) ↔ WholeCents q := by
  constructor
  · intro h
    obtain ⟨n, hn⟩ := h
    exact ⟨-n, by push_cast; linarith⟩
  · intro h
    obtain ⟨n, hn⟩ := h
    exact ⟨-n, by push_cast; linarith⟩

/-- The regraded entry is the one settled today exactly if no cent is split. -/
theorem regraded_eq_iff {e : Entry} (h : regradable e = true) : regraded e = resettled e ↔ WholeCents e.stake := by
  rw [resettled_eq h, ← wholeCents_neg, ← cents_eq_iff]
  constructor
  · intro he
    exact (congrArg (fun x : Entry => x.pnl) he).symm
  · intro hc
    rw [hc]
    rfl

theorem regraded_settled (e : Entry) : regradable (regraded e) = false := rfl

/-! ## As `settleOrders` -/

/-- One call and another one after it. -/
structure Regrades (trim trim' : Nat → Nat) (s : Sys) : Prop where
  entries : (entries (adminRegradeDraws .never trim s).1).Perm
    ((Admin.entries s).filter (!regradable ·) ++ ((Admin.entries s).filter regradable).map resettled)
  hash : (adminRegradeDraws .never trim s).1.hash =
    { entriesTotals (Admin.entries (adminRegradeDraws .never trim s).1) with
      net := cents (entriesTotals (Admin.entries (adminRegradeDraws .never trim s).1)).net }
  twice : Admin.entries (adminRegradeDraws .never trim' (adminRegradeDraws .never trim s).1).1 =
      Admin.entries (adminRegradeDraws .never trim s).1 ∧
    (adminRegradeDraws .never trim' (adminRegradeDraws .never trim s).1).1.hash = (adminRegradeDraws .never trim s).1.hash

/-- The rewritten entries, on both sides of the account, tell whether each is the same. -/
theorem same_of_perm {es : List Entry} (h : (es.map regraded).Perm (es.map resettled)) (hall : ∀ e ∈ es, regradable e = true) :
    ∀ e ∈ es, WholeCents e.stake := by
  intro e he
  obtain ⟨e', he', heq⟩ := List.mem_map.mp (h.subset (List.mem_map_of_mem he))
  rw [resettled_eq (hall e' he')] at heq
  have hstake := congrArg (fun x : Entry => x.stake) heq
  have hpnl := congrArg (fun x : Entry => x.pnl) heq
  simp only [regraded] at hstake hpnl
  rwa [hstake, cents_eq_iff, wholeCents_neg] at hpnl

theorem hits_nil {s : Sys} {r : Request} (h : ∀ e ∈ entries s, picked r e = false) : hits s r = [] := by
  rw [hits, List.filter_eq_nil_iff]
  intro x hx hp
  rw [h x.2 (List.mem_map_of_mem (List.mem_of_mem_take hx))] at hp
  cases hp

theorem swept_take {s : Sys} (hids : (s.ledger.map (·.1)).Nodup) (hlen : s.ledger.length ≤ maxLen) (trim : Nat → Nat) :
    (swept s .regradeDraws trim).ledger.take rangeCount = (swept s .regradeDraws trim).ledger := by
  have hlength : (swept s .regradeDraws trim).ledger.length = s.ledger.length := by
    have h := congrArg List.length (swept_entries hids hlen trim)
    rw [List.length_append, List.length_map, Nat.add_comm, ← List.length_append,
      (List.filter_append_perm regradable (entries s)).length_eq, entries, entries, List.length_map, List.length_map] at h
    exact h
  apply List.take_of_length_le
  unfold maxLen at hlen
  unfold rangeCount
  omega

/-- Nothing is left for a second call to pick. -/
theorem hits_swept {s : Sys} (hids : (s.ledger.map (·.1)).Nodup) (hlen : s.ledger.length ≤ maxLen) (trim : Nat → Nat) :
    hits (requestAll s .regradeDraws trim) .regradeDraws = [] := by
  apply hits_nil
  intro e he
  have he' : e ∈ entries (swept s .regradeDraws trim) := he
  rw [swept_entries hids hlen trim] at he'
  rcases List.mem_append.mp he' with he' | he'
  · show regradable e = false
    simpa using (List.mem_filter.mp he').2
  · obtain ⟨x, -, rfl⟩ := List.mem_map.mp he'
    exact regraded_settled x

theorem regrade_twice {s : Sys} (hids : (s.ledger.map (·.1)).Nodup) (hlen : s.ledger.length ≤ maxLen) (trim trim' : Nat → Nat) :
    (adminRegradeDraws .never trim' (requestAll s .regradeDraws trim)).1 = overwrite (requestAll s .regradeDraws trim) := by
  rw [regrade_never, requestAll, swept_none (hits_swept hids hlen trim)]
  rfl

theorem regrade_agrees_iff (trim trim' : Nat → Nat) (s : Sys) (hids : (s.ledger.map (·.1)).Nodup)
    (hlen : s.ledger.length ≤ maxLen) :
    Regrades trim trim' s ↔ ∀ e ∈ entries s, regradable e = true → WholeCents e.stake := by
  have hentries := swept_entries hids hlen trim
  have hcall : (adminRegradeDraws .never trim s).1 = requestAll s .regradeDraws trim := by rw [regrade_never]
  constructor
  · intro h e he hr
    have hperm := h.entries
    rw [hcall] at hperm
    have hperm' : (entries (swept s .regradeDraws trim)).Perm _ := hperm
    rw [hentries, List.perm_append_left_iff] at hperm'
    exact same_of_perm hperm' (fun x hx => (List.mem_filter.mp hx).2) e (List.mem_filter.mpr ⟨he, hr⟩)
  · intro h
    have hsame : ((entries s).filter regradable).map regraded = ((entries s).filter regradable).map resettled := by
      apply List.map_congr_left
      intro e he
      obtain ⟨he, hr⟩ := List.mem_filter.mp he
      exact (regraded_eq_iff hr).mpr (h e he hr)
    have hhash : (requestAll s .regradeDraws trim).hash = recomputed (entries (swept s .regradeDraws trim)) := by
      simp only [requestAll, swept_take hids hlen trim, entries]
    have htwice := regrade_twice hids hlen trim trim'
    refine ⟨?_, ?_, ?_, ?_⟩
    · rw [hcall, ← hsame, ← hentries]
      rfl
    · rw [hcall, hhash]
      rfl
    · rw [hcall, htwice]
      rfl
    · rw [hcall, htwice]
      rfl

/-- A home bet that was void at 1-1. -/
def voidBet (stake : ℚ) : Entry :=
  { orderID := "paper_1", market := "FULLTIME_1X2", side := "home", odds := 2, stake := stake, result := .void, pnl := 0
    source := "feed_ft", verified := true, matchID := "m1", scoreHome := 1, scoreAway := 1, settledAt := 0 }

def oneVoid (stake : ℚ) : Sys := ⟨[(1, voidBet stake)], 2, ⟨0, 0, 0, 1⟩, []⟩

theorem regrade_agrees_ten : Regrades (fun _ => 0) (fun _ => 0) (oneVoid 10) ↔
    ∀ e ∈ entries (oneVoid 10), regradable e = true → WholeCents e.stake :=
  regrade_agrees_iff _ _ (oneVoid 10) (by decide) (by decide)

/-- A stake of 12.5 cents: the handler takes all of it, `settleOrders` 13 cents. -/
theorem a_fraction_of_a_cent_stays : ¬Regrades (fun _ => 0) (fun _ => 0) (oneVoid (1 / 8)) := by
  intro h
  have hperm := h.entries
  revert hperm
  decide +kernel

/-! ## Failures -/

/-- A settlement in the ledger afterwards: as it was, or regraded. -/
def Form (e e' : Entry) : Prop := e' = e ∨ (regradable e = true ∧ e' = regraded e)

/-- Every settlement is still there, once, and nothing else. -/
def Preserved (s t : Sys) : Prop := ∃ l : List Entry, List.Forall₂ Form (entries s) l ∧ (entries t).Perm l

theorem preserved_same {s t : Sys} (h : entries t = entries s) : Preserved s t :=
  ⟨entries s, List.forall₂_same.mpr fun _ _ => Or.inl rfl, by rw [h]⟩

theorem preserved_length {s t : Sys} (h : Preserved s t) : t.ledger.length = s.ledger.length := by
  obtain ⟨l, hf, hp⟩ := h
  have hlen := hp.length_eq.trans hf.length_eq.symm
  rwa [entries, entries, List.length_map, List.length_map] at hlen

theorem deleted_length {s : Sys} (hids : (s.ledger.map (·.1)).Nodup) :
    (deleted s).ledger.length + (hits s .regradeDraws).length = s.ledger.length := by
  have h := (List.filter_append_perm (fun x : Nat × Entry => ((hits s .regradeDraws).map (·.1)).contains x.1) s.ledger).length_eq
  rw [filter_hits hids, List.length_append] at h
  rw [← h, Nat.add_comm]
  rfl

/-- No XADD of the whole pipeline lets an entry go. -/
def Untrimming (trim : Nat → Nat) (s : Sys) : Prop :=
  ∀ j < (hits s .regradeDraws).length,
    lets trim (s.nextID + j) (s.ledger.length - (hits s .regradeDraws).length + j) = 0

theorem readded_length_iff {s : Sys} (hids : (s.ledger.map (·.1)).Nodup) (trim : Nat → Nat) (n : Nat) :
    (readded trim s n).ledger.length = s.ledger.length ↔ (hits s .regradeDraws).length ≤ n ∧ Untrimming trim s := by
  have hdel := deleted_length hids
  have hlen : ((again .regradeDraws ((hits s .regradeDraws).map (·.2))).take n).length = min n (hits s .regradeDraws).length := by
    rw [List.length_take, hits_length]
  have hle := appendAll_length_le trim ((again .regradeDraws ((hits s .regradeDraws).map (·.2))).take n) (deleted s)
  have hiff := appendAll_length_iff trim ((again .regradeDraws ((hits s .regradeDraws).map (·.2))).take n) (deleted s)
  have hnext : (deleted s).nextID = s.nextID := rfl
  have hrest : (deleted s).ledger.length = s.ledger.length - (hits s .regradeDraws).length := by omega
  rw [hlen] at hle hiff
  rw [hnext] at hiff
  constructor
  · intro h
    have h' : (appendAll trim (deleted s) ((again .regradeDraws ((hits s .regradeDraws).map (·.2))).take n)).ledger.length =
        s.ledger.length := h
    have hn : (hits s .regradeDraws).length ≤ n := by omega
    refine ⟨hn, ?_⟩
    rw [Nat.min_eq_right hn] at hiff
    rw [Untrimming, ← hrest]
    exact hiff.mp (by omega)
  · intro h
    obtain ⟨hn, hu⟩ := h
    rw [Nat.min_eq_right hn] at hiff
    rw [Untrimming, ← hrest] at hu
    have := hiff.mpr hu
    show (appendAll trim (deleted s) _).ledger.length = _
    omega

def isHit (s : Sys) (x : Nat × Entry) : Bool := ((hits s .regradeDraws).map (·.1)).contains x.1

/-- The form in which an entry should come out. -/
def formOf (s : Sys) (x : Nat × Entry) : Entry := if isHit s x then regraded x.2 else x.2

theorem formOf_form {s : Sys} (hids : (s.ledger.map (·.1)).Nodup) {x : Nat × Entry} (hx : x ∈ s.ledger) :
    Form x.2 (formOf s x) := by
  unfold formOf
  by_cases hhit : isHit s x = true
  · rw [if_pos hhit]
    have hmem : x ∈ hits s .regradeDraws := by
      rw [← filter_hits hids]
      exact List.mem_filter.mpr ⟨hx, hhit⟩
    exact Or.inr ⟨(hits_sub hmem).2, rfl⟩
  · rw [if_neg hhit]
    exact Or.inl rfl

theorem hits_formOf {s : Sys} (hids : (s.ledger.map (·.1)).Nodup) :
    (hits s .regradeDraws).map (fun x => regraded x.2) = (s.ledger.filter (isHit s)).map (formOf s) := by
  have hf : s.ledger.filter (isHit s) = hits s .regradeDraws := filter_hits hids .regradeDraws
  rw [hf]
  apply List.map_congr_left
  intro x hx
  have hhit : isHit s x = true := List.contains_iff_mem.mpr (List.mem_map_of_mem hx)
  rw [formOf, if_pos hhit]

theorem deleted_formOf (s : Sys) : entries (deleted s) = (s.ledger.filter (!isHit s ·)).map (formOf s) := by
  apply List.map_congr_left
  intro x hx
  have hhit : (!isHit s x) = true := (List.mem_filter.mp hx).2
  rw [formOf, if_neg (by simpa using hhit)]

/-- Deleted and appended again, all of them: each settlement is there in one of its forms. -/
theorem preserved_readded {s : Sys} (hids : (s.ledger.map (·.1)).Nodup) (trim : Nat → Nat) {n : Nat}
    (h : (readded trim s n).ledger.length = s.ledger.length) : Preserved s (readded trim s n) := by
  obtain ⟨hn, -⟩ := (readded_length_iff hids trim n).mp h
  have hdel := deleted_length hids
  have htake : (again .regradeDraws ((hits s .regradeDraws).map (·.2))).take n =
      (hits s .regradeDraws).map fun x => regraded x.2 := by
    rw [List.take_of_length_le (by rw [hits_length]; exact hn), again, List.map_map]
    rfl
  have hentries : entries (readded trim s n) = entries (deleted s) ++ (hits s .regradeDraws).map fun x => regraded x.2 := by
    rw [readded, htake] at h ⊢
    apply appendAll_untrimmed
    rw [h, List.length_map]
    omega
  refine ⟨s.ledger.map (formOf s), ?_, ?_⟩
  · rw [entries, List.forall₂_map_left_iff, List.forall₂_map_right_iff, List.forall₂_same]
    exact fun x hx => formOf_form hids hx
  · rw [hentries, hits_formOf hids, deleted_formOf, ← List.map_append]
    exact (List.perm_append_comm.trans (List.filter_append_perm (isHit s) s.ledger)).map _

/-- The failing command cannot lose anything: nothing is deleted before it, or everything is
    back. -/
def Harmless (f : Failure) (trim : Nat → Nat) (s : Sys) : Prop :=
  match f with
  | .never => True
  | .read => True
  | .del applied => applied = true → hits s .regradeDraws = []
  | .readd applied => (hits s .regradeDraws).length ≤ applied ∧ Untrimming trim s
  | .reread => Untrimming trim s
  | .write _ => Untrimming trim s

/-- A full replacement, whatever becomes of the hash after it. -/
theorem preserved_swept_iff {s t : Sys} (hids : (s.ledger.map (·.1)).Nodup) (trim : Nat → Nat)
    (ht : t.ledger = (readded trim s (hits s .regradeDraws).length).ledger) : Preserved s t ↔ Untrimming trim s := by
  have hsame : entries t = entries (readded trim s (hits s .regradeDraws).length) := by rw [entries, ht, entries]
  constructor
  · intro h
    have hlen := preserved_length h
    rw [ht] at hlen
    exact ((readded_length_iff hids trim _).mp hlen).2
  · intro h
    have hp := preserved_readded hids trim ((readded_length_iff hids trim _).mpr ⟨Nat.le_refl _, h⟩)
    unfold Preserved at hp ⊢
    rwa [hsame]

theorem loses_nothing_iff (f : Failure) (trim : Nat → Nat) (s : Sys) (hids : (s.ledger.map (·.1)).Nodup) :
    ((adminRegradeDraws f trim s).2 = false → Preserved s (adminRegradeDraws f trim s).1) ↔ Harmless f trim s := by
  have hdel := deleted_length hids
  cases f with
  | never => simp [adminRegradeDraws, replace_full, Harmless]
  | read => simp [adminRegradeDraws, Harmless, preserved_same]
  | del applied =>
    by_cases hnil : hits s .regradeDraws = []
    · simp [adminRegradeDraws, replaceDraws, hnil, Harmless]
    · cases applied with
      | false => simp [adminRegradeDraws, replaceDraws, hnil, Harmless, preserved_same]
      | true =>
        have hlost : ¬Preserved s (deleted s) := by
          intro h
          have hlen := preserved_length h
          have hpos := List.length_pos_iff.mpr hnil
          omega
        simp [adminRegradeDraws, replaceDraws, hnil, Harmless, hlost]
  | readd applied =>
    by_cases hnil : hits s .regradeDraws = []
    · simp [adminRegradeDraws, replaceDraws, hnil, Harmless, Untrimming]
    · have hiff : Preserved s (readded trim s applied) ↔ (hits s .regradeDraws).length ≤ applied ∧ Untrimming trim s := by
        rw [← readded_length_iff hids]
        exact ⟨preserved_length, preserved_readded hids trim⟩
      simp [adminRegradeDraws, replaceDraws, hnil, Harmless, hiff]
  | reread =>
    have hiff := preserved_swept_iff hids trim (t := readded trim s (hits s .regradeDraws).length) rfl
    simp [adminRegradeDraws, replace_full, Harmless, hiff]
  | write applied =>
    have hiff := preserved_swept_iff hids trim (t := readded trim s (hits s .regradeDraws).length) rfl
    have hiff' := preserved_swept_iff hids trim (t := overwrite (readded trim s (hits s .regradeDraws).length)) rfl
    cases applied <;> simp [adminRegradeDraws, replace_full, Harmless, hiff, hiff']

theorem loses_nothing_reread : ((adminRegradeDraws .reread (fun _ => 0) (oneVoid 10)).2 = false →
      Preserved (oneVoid 10) (adminRegradeDraws .reread (fun _ => 0) (oneVoid 10)).1) ↔
    Harmless .reread (fun _ => 0) (oneVoid 10) :=
  loses_nothing_iff .reread _ (oneVoid 10) (by decide)

/-- The connection breaks after the XDEL: the bet is in no ledger any more. -/
theorem a_failed_pipeline_loses_a_settlement : (adminRegradeDraws (.readd 0) (fun _ => 0) (oneVoid 10)).2 = false ∧
    ¬Preserved (oneVoid 10) (adminRegradeDraws (.readd 0) (fun _ => 0) (oneVoid 10)).1 :=
  ⟨by decide +kernel, fun h => absurd (preserved_length h) (by decide +kernel)⟩

end CasuyaLive.Execution.Admin
