/-
  CasuyaLive.Calibration.Auc — the area under the curve of the calibration report
  (analytics-engine-py, scripts/calibrate.py: `auc`).

  Scores are of any linear order, the ranks exact rationals. The scan walks the sorted rows
  and gives each block of ties the mean of its places; `rankTies_eq`: those are the average
  ranks of `Lib.PairCount`. `auc_is_pair_count`: the result is the share of the pairs that
  the positives win, a tie counting half.
-/

import Mathlib.Algebra.Order.Field.Basic
import Mathlib.Data.List.TakeWhile
import Mathlib.Tactic.Positivity
import CasuyaLive.Lib.PairCount

namespace CasuyaLive.Calibration

open CasuyaLive.Lib

variable {α : Type}

/-! ## The code -/

section

variable [LinearOrder α] [Inhabited α]

/-- The rows by score; equal ones stay in their order. -/
def order (n : ℕ) (probs : List α) : List ℕ := (List.range n).mergeSort fun i j => decide (probs[i]! ≤ probs[j]!)

/-- The scan from the place `i` on, over the rows that are left: the first one and those tied
    with it share the mean of their places. -/
def rankTies (probs : List α) (i : ℕ) : List ℕ → List ℚ → List ℚ
  | [], ranks => ranks
  | first :: rest, ranks =>
    let ties := rest.takeWhile fun k => probs[k]! == probs[first]!
    let j := i + ties.length
    let avgRank : ℚ := (i + j) / 2 + 1
    rankTies probs (j + 1) (rest.dropWhile fun k => probs[k]! == probs[first]!)
      ((first :: ties).foldl (fun ranks k => ranks.set k avgRank) ranks)
termination_by left => left.length
decreasing_by
  have := (List.dropWhile_suffix fun k => probs[k]! == probs[first]! : _ <:+ rest).length_le
  simp only [List.length_cons]
  omega

/-- The labels are 0 and 1; a score past the end of `probs` raises. -/
def auc (y : List ℕ) (probs : List α) : ℚ :=
  let n := y.length
  let nPos := y.sum
  let nNeg : Int := n - nPos
  if n = 0 ∨ nPos = 0 ∨ nNeg = 0 then 1 / 2
  else
    let ranks := rankTies probs 0 (order n probs) (List.replicate n 0)
    let rankPos := (((List.range n).filter fun k => y[k]! = 1).map fun k => ranks[k]!).sum
    let u := rankPos - nPos * (nPos + 1) / 2
    u / (nPos * nNeg)

end

/-- The scores of the rows of a class. -/
def ofClass (label : ℕ) (y : List ℕ) (probs : List α) : List α := ((y.zip probs).filter (·.1 = label)).map (·.2)

/-- The share of the pairs of a positive and a negative row that the positive wins. -/
def pairShare [LinearOrder α] (y : List ℕ) (probs : List α) : ℚ :=
  let positive := ofClass 1 y probs
  let negative := ofClass 0 y probs
  if positive = [] ∨ negative = [] then 1 / 2
  else (above positive negative + level positive negative / 2) / (positive.length * negative.length)

/-! ## The scan -/

section

variable [LinearOrder α] [Inhabited α]

/-- The rows in the order of their scores, from some place on. -/
structure Scan (probs : List α) (whole done rest : List ℕ) : Prop where
  split : whole = done ++ rest
  sorted : rest.Pairwise fun i j => probs[i]! ≤ probs[j]!
  below : ∀ i ∈ done, ∀ j ∈ rest, probs[i]! < probs[j]!

variable {probs : List α}

theorem takeWhile_tied {first : ℕ} {rest : List ℕ} :
    ∀ k ∈ first :: rest.takeWhile (fun k => probs[k]! == probs[first]!), probs[k]! = probs[first]! := by
  intro k hk
  rcases List.mem_cons.mp hk with rfl | hk
  · rfl
  · simpa using List.mem_takeWhile_imp hk

/-- Once a sorted row is not tied with the first, no later one is. -/
theorem dropWhile_above {a : α} {rest : List ℕ} (hsorted : rest.Pairwise fun i j => probs[i]! ≤ probs[j]!)
    (hle : ∀ k ∈ rest, a ≤ probs[k]!) : ∀ k ∈ rest.dropWhile (fun k => probs[k]! == a), a < probs[k]! := by
  induction rest with
  | nil => simp
  | cons b rest ih =>
    obtain ⟨hb, hrest⟩ := List.pairwise_cons.mp hsorted
    by_cases htied : probs[b]! = a
    · rw [List.dropWhile_cons_of_pos (by simpa using htied)]
      exact ih hrest fun k hk => hle k (List.mem_cons_of_mem _ hk)
    · have hlt : a < probs[b]! := lt_of_le_of_ne (hle b List.mem_cons_self) (Ne.symm htied)
      rw [List.dropWhile_cons_of_neg (by simpa using htied)]
      intro k hk
      rcases List.mem_cons.mp hk with rfl | hk
      · exact hlt
      · exact hlt.trans_le (hb k hk)

/-- The block of the first row and its ties, and what the scan goes on with. -/
theorem Scan.block {whole done : List ℕ} {first : ℕ} {rest : List ℕ} (h : Scan probs whole done (first :: rest)) :
    Scan probs whole (done ++ first :: rest.takeWhile fun k => probs[k]! == probs[first]!)
      (rest.dropWhile fun k => probs[k]! == probs[first]!) := by
  obtain ⟨hfirst, hrest⟩ := List.pairwise_cons.mp h.sorted
  have habove := dropWhile_above hrest hfirst
  refine ⟨?_, hrest.sublist (List.dropWhile_sublist _), ?_⟩
  · rw [h.split, List.append_assoc, List.cons_append, List.takeWhile_append_dropWhile]
  · intro i hi j hj
    rcases List.mem_append.mp hi with hi | hi
    · exact h.below i hi j (List.mem_cons_of_mem _ (List.dropWhile_subset _ hj))
    · rw [takeWhile_tied i hi]
      exact habove j hj

/-- The mean of a block's places is the average rank of its score. -/
theorem Scan.rank_first {whole done : List ℕ} {first : ℕ} {rest : List ℕ} (h : Scan probs whole done (first :: rest)) :
    rank (whole.map (probs[·]!)) probs[first]! =
      (done.length + (done.length + (rest.takeWhile fun k => probs[k]! == probs[first]!).length : ℕ)) / 2 + 1 := by
  have hnext := h.block
  rw [hnext.split, List.map_append, List.map_append, List.append_assoc, rank_of_block (a := probs[first]!)]
  · simp only [List.length_map, List.length_cons]
    push_cast
    ring
  · exact List.forall_mem_map.mpr fun k hk => h.below k hk first List.mem_cons_self
  · exact List.forall_mem_map.mpr takeWhile_tied
  · exact List.forall_mem_map.mpr fun k hk => hnext.below first (by simp) k hk

/-- Every row gets the average rank of its score. -/
theorem rankTies_eq {whole : List ℕ} (i : ℕ) (rest : List ℕ) (ranks : List ℚ) : ∀ done : List ℕ, i = done.length →
    Scan probs whole done rest →
    rankTies probs i rest ranks = rest.foldl (fun ranks k => ranks.set k (rank (whole.map (probs[·]!)) probs[k]!)) ranks := by
  induction i, rest, ranks using rankTies.induct probs with
  | case1 i ranks =>
    intro done _ _
    rw [rankTies, List.foldl_nil]
  | case2 i first rest ranks ties j avgRank ih =>
    intro done hi h
    have hplace : avgRank = rank (whole.map (probs[·]!)) probs[first]! := by
      rw [h.rank_first]
      simp only [avgRank, j, ties, hi]
    have hlen : j + 1 = (done ++ first :: ties).length := by
      simp only [j, hi, List.length_append, List.length_cons]
      omega
    have hsplit : first :: rest = (first :: ties) ++ rest.dropWhile fun k => probs[k]! == probs[first]! := by
      rw [List.cons_append, List.takeWhile_append_dropWhile]
    have hblock : (first :: ties).foldl (fun ranks k => ranks.set k avgRank) ranks =
        (first :: ties).foldl (fun ranks k => ranks.set k (rank (whole.map (probs[·]!)) probs[k]!)) ranks := by
      refine List.foldl_ext _ _ _ fun acc k hk => ?_
      rw [hplace, takeWhile_tied k hk]
    rw [rankTies, ih _ hlen h.block, hblock, ← List.foldl_append, ← hsplit]

/-- Writing one value to each of some places. -/
theorem foldl_set_get {f : ℕ → ℚ} (ks : List ℕ) : ∀ (ranks : List ℚ) {k : ℕ}, k < ranks.length →
    (ks.foldl (fun ranks k => ranks.set k (f k)) ranks)[k]! = if k ∈ ks then f k else ranks[k]! := by
  induction ks with
  | nil =>
    intro ranks k _
    simp
  | cons a ks ih =>
    intro ranks k hk
    rw [List.foldl_cons, ih _ (by simpa using hk)]
    by_cases hmem : k ∈ ks
    · simp [hmem]
    · by_cases ha : k = a
      · subst ha
        simp [hmem, hk]
      · simp [hmem, ha, List.getElem!_eq_getElem?_getD, List.getElem?_set_ne (Ne.symm ha)]

theorem order_perm (n : ℕ) : (order n probs).Perm (List.range n) := List.mergeSort_perm _ _

theorem order_scan (n : ℕ) : Scan probs (order n probs) [] (order n probs) := by
  refine ⟨rfl, ?_, by simp⟩
  have hsorted : (order n probs).Pairwise fun i j => decide (probs[i]! ≤ probs[j]!) = true := List.pairwise_mergeSort
    (fun a b c hab hbc => by simpa using le_trans (by simpa using hab) (by simpa using hbc))
    (fun a b => by simpa using le_total probs[a]! probs[b]!) (List.range n)
  exact hsorted.imp fun h => by simpa using h

omit [LinearOrder α] in
theorem map_range (probs : List α) : (List.range probs.length).map (probs[·]!) = probs := by
  refine List.ext_getElem (by simp) fun k h₁ h₂ => ?_
  simp [h₂]

/-- The rank the scan leaves a row. -/
theorem rankTies_get {k : ℕ} (hk : k < probs.length) :
    (rankTies probs 0 (order probs.length probs) (List.replicate probs.length 0))[k]! = rank probs probs[k]! := by
  have hmem : k ∈ order probs.length probs := (order_perm _).mem_iff.mpr (List.mem_range.mpr hk)
  rw [rankTies_eq 0 _ _ [] rfl (order_scan _), foldl_set_get _ _ (by simpa using hk), if_pos hmem]
  have hperm : ((order probs.length probs).map (probs[·]!)).Perm ((List.range probs.length).map (probs[·]!)) :=
    (order_perm _).map _
  rw [map_range] at hperm
  exact rank_perm hperm _

end

/-! ## Classes -/

variable {probs : List α}

theorem zip_range [Inhabited α] {y : List ℕ} (h : y.length = probs.length) :
    y.zip probs = (List.range probs.length).map fun k => (y[k]!, probs[k]!) := by
  refine List.ext_getElem (by simp [h]) fun k h₁ h₂ => ?_
  have hk : k < probs.length := by simpa using h₂
  simp [hk, h ▸ hk]

/-- The rows of a class, by their places. -/
theorem ofClass_range [Inhabited α] {y : List ℕ} (h : y.length = probs.length) (label : ℕ) :
    ofClass label y probs = ((List.range probs.length).filter fun k => y[k]! = label).map (probs[·]!) := by
  rw [ofClass, zip_range h, List.filter_map, List.map_map]
  rfl

/-- Rows labelled 0 and 1 fall into the two classes. -/
theorem classes_perm {y : List ℕ} (h : y.length = probs.length) (hy : ∀ v ∈ y, v = 0 ∨ v = 1) :
    (ofClass 1 y probs ++ ofClass 0 y probs).Perm probs := by
  have hneg : (y.zip probs).filter (fun x => x.1 = 0) = (y.zip probs).filter fun x => !decide (x.1 = 1) := by
    refine List.filter_congr fun x hx => ?_
    rcases hy x.1 (List.of_mem_zip hx).1 with h0 | h1
    · simp [h0]
    · simp [h1]
  have hperm := (List.filter_append_perm (fun x => decide (x.1 = 1)) (y.zip probs)).map (·.2)
  rw [List.map_append, ← hneg, List.map_snd_zip h.ge] at hperm
  exact hperm

theorem sum_eq_positives {y : List ℕ} : ∀ {probs : List α}, y.length = probs.length → (∀ v ∈ y, v = 0 ∨ v = 1) →
    y.sum = (ofClass 1 y probs).length := by
  induction y with
  | nil =>
    intro probs _ _
    rfl
  | cons v y ih =>
    intro probs h hy
    cases probs with
    | nil => cases h
    | cons a probs =>
      have hrest := ih (Nat.succ.inj h) fun w hw => hy w (List.mem_cons_of_mem _ hw)
      rw [ofClass, List.length_map] at hrest ⊢
      rcases hy v List.mem_cons_self with rfl | rfl
      · simpa using hrest
      · simp [hrest, Nat.add_comm]

/-! ## Pair counting -/

section

variable [LinearOrder α]

theorem auc_pairs [Inhabited α] {y : List ℕ} (h : y.length = probs.length) (hy : ∀ v ∈ y, v = 0 ∨ v = 1) :
    auc y probs = pairShare y probs := by
  have hclasses := classes_perm h hy
  have hpos := sum_eq_positives h hy
  have hneg : (y.length : Int) - y.sum = (ofClass 0 y probs).length := by
    have := hclasses.length_eq
    rw [List.length_append] at this
    omega
  have hdegenerate : (y.length = 0 ∨ y.sum = 0 ∨ (y.length : Int) - y.sum = 0) ↔
      ofClass 1 y probs = [] ∨ ofClass 0 y probs = [] := by
    rw [← List.length_eq_zero_iff, ← List.length_eq_zero_iff]
    omega
  by_cases hd : ofClass 1 y probs = [] ∨ ofClass 0 y probs = []
  · simp only [auc, pairShare, if_pos hd, if_pos (hdegenerate.mpr hd)]
  · have hranks : (((List.range probs.length).filter fun k => y[k]! = 1).map fun k =>
        (rankTies probs 0 (order probs.length probs) (List.replicate probs.length 0))[k]!) =
        (ofClass 1 y probs).map (rank (ofClass 1 y probs ++ ofClass 0 y probs)) := by
      rw [ofClass_range h 1, List.map_map]
      refine List.map_congr_left fun k hk => ?_
      rw [rankTies_get (List.mem_range.mp (List.mem_of_mem_filter hk)), ← ofClass_range h 1]
      exact (rank_perm hclasses _).symm
    have hno := mt hdegenerate.mp hd
    simp only [auc, pairShare, if_neg hd, if_neg hno]
    rw [h, hranks, rank_sum, ← h, hneg, hpos]
    push_cast
    ring

theorem pairShare_mem (y : List ℕ) (probs : List α) : 0 ≤ pairShare y probs ∧ pairShare y probs ≤ 1 := by
  unfold pairShare
  simp only
  split
  · norm_num
  · rename_i hd
    obtain ⟨hs, ht⟩ := not_or.mp hd
    have hpairs : (0 : ℚ) < (ofClass 1 y probs).length * (ofClass 0 y probs).length := by
      exact_mod_cast Nat.mul_pos (List.length_pos_of_ne_nil hs) (List.length_pos_of_ne_nil ht)
    have hsplit : (above (ofClass 1 y probs) (ofClass 0 y probs) + level (ofClass 1 y probs) (ofClass 0 y probs) +
        above (ofClass 0 y probs) (ofClass 1 y probs) : ℚ) = (ofClass 1 y probs).length * (ofClass 0 y probs).length := by
      exact_mod_cast pairs_split (ofClass 1 y probs) (ofClass 0 y probs)
    constructor
    · positivity
    · rw [div_le_one hpairs, ← hsplit]
      have hlevel : (0 : ℚ) ≤ level (ofClass 1 y probs) (ofClass 0 y probs) := Nat.cast_nonneg _
      have hlost : (0 : ℚ) ≤ above (ofClass 0 y probs) (ofClass 1 y probs) := Nat.cast_nonneg _
      linarith

theorem pairShare_perm {y y' : List ℕ} {probs' : List α} (h : (y'.zip probs').Perm (y.zip probs)) :
    pairShare y' probs' = pairShare y probs := by
  have hclass : ∀ label, (ofClass label y' probs').Perm (ofClass label y probs) := fun label => (h.filter _).map _
  have hempty : (ofClass 1 y' probs' = [] ∨ ofClass 0 y' probs' = []) ↔ (ofClass 1 y probs = [] ∨ ofClass 0 y probs = []) := by
    simp only [← List.length_eq_zero_iff, (hclass _).length_eq]
  have habove := above_perm (hclass 1) (hclass 0)
  have hlevel := level_perm (hclass 1) (hclass 0)
  simp only [pairShare, hempty, habove, hlevel, (hclass _).length_eq]

/-- The area under the curve is the share of the pairs the positives win, half for a tie;
    without pairs it is a half. It lies between 0 and 1 and the order of the rows is nothing
    to it. -/
theorem auc_is_pair_count [Inhabited α] (y : List ℕ) (probs : List α) (h : y.length = probs.length) (hy : ∀ v ∈ y, v = 0 ∨ v = 1) :
    auc y probs = pairShare y probs ∧ (0 ≤ auc y probs ∧ auc y probs ≤ 1) ∧
      ∀ (y' : List ℕ) (probs' : List α), y'.length = probs'.length → (y'.zip probs').Perm (y.zip probs) →
        auc y' probs' = auc y probs := by
  have hpairs := auc_pairs h hy
  refine ⟨hpairs, ?_, ?_⟩
  · rw [hpairs]
    exact pairShare_mem y probs
  · intro y' probs' h' hperm
    have hy' : ∀ v ∈ y', v = 0 ∨ v = 1 := by
      intro v hv
      rw [← List.map_fst_zip h'.le] at hv
      obtain ⟨x, hx, rfl⟩ := List.mem_map.mp hv
      exact hy x.1 (List.of_mem_zip (hperm.mem_iff.mp hx)).1
    rw [auc_pairs h' hy', hpairs, pairShare_perm hperm]

/-- Of four pairs the positives win three and tie one. -/
theorem a_tied_pair_counts_half : auc [1, 0, 1, 0] ([3 / 4, 1 / 2, 1 / 2, 1 / 4] : List ℚ) = 7 / 8 :=
  (auc_is_pair_count _ _ (by decide) (by decide)).1.trans (by decide +kernel)

end

end CasuyaLive.Calibration
